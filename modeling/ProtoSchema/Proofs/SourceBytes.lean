import ProtoSchema.Proofs.FirstFailure

/-!
# Schemas in bytes

A schema may be given in bytes, which are cut into lines before they are decoded. For the bytes of a
text that makes no difference. Other bytes have a first line that is not valid UTF-8, and reading
stops there, unless a line in front of it fails.

**Bytes of a character.** A byte below 0x80 stands for itself, so newlines and carriage returns are
the same in the bytes of a text as in the text (`byteLines_encode`).

**The first unreadable line.** `FirstUnreadable` cuts the bytes at that line. In front of it stands
a text, and what stands behind it does not matter.

Results:
* `decode?_eq_some`: decoding undoes encoding, and nothing else decodes;
* `byteLines_encode`, `decodedLines_toUTF8`: the lines of the bytes of a text;
* `exists_firstUnreadable`: bytes that are not valid UTF-8 have a first unreadable line;
* `readAll_failure?_eq`: reading lines fails as the first of the calls for them does;
* `compileBytes_lines`: what bytes compile to.
-/
namespace ProtoSchema

/-! ## Characters and bytes -/

namespace Text

/-- The bytes of a text in UTF-8. -/
def encode (cs : List Char) : List UInt8 :=
  cs.flatMap String.utf8EncodeChar

theorem encode_append (cs ds : List Char) : encode (cs ++ ds) = encode cs ++ encode ds :=
  List.flatMap_append

theorem encode_cons (c : Char) (cs : List Char) :
    encode (c :: cs) = String.utf8EncodeChar c ++ encode cs :=
  List.flatMap_cons

theorem utf8Encode_eq (cs : List Char) : cs.utf8Encode = ⟨(encode cs).toArray⟩ :=
  ByteArray.ext List.data_toByteArray

theorem toUTF8_eq (text : String) : text.toUTF8 = ⟨(encode text.toList).toArray⟩ := by
  rw [← utf8Encode_eq, ← String.toByteArray_ofList, String.ofList_toList]
  rfl

/-- A byte below 0x80 is all there is of its character. -/
theorem val_of_mem_utf8EncodeChar {b : UInt8} {c : Char} (h : b ∈ String.utf8EncodeChar c)
    (hb : b.toNat < 0x80) : c.toNat = b.toNat := by
  have hc : c.val.toNat = c.toNat := rfl
  unfold String.utf8EncodeChar at h
  simp only [hc] at h
  split at h
  · rw [List.mem_singleton.1 h, UInt8.toNat_ofNat']
    omega
  · -- Every byte of a longer encoding has its highest bit set.
    exfalso
    split at h
    · simp only [List.mem_cons, List.not_mem_nil, or_false] at h
      rcases h with rfl | rfl <;> rw [UInt8.toNat_ofNat'] at hb <;> omega
    · split at h
      · simp only [List.mem_cons, List.not_mem_nil, or_false] at h
        rcases h with rfl | rfl | rfl <;> rw [UInt8.toNat_ofNat'] at hb <;> omega
      · simp only [List.mem_cons, List.not_mem_nil, or_false] at h
        rcases h with rfl | rfl | rfl | rfl <;> rw [UInt8.toNat_ofNat'] at hb <;> omega

theorem eq_newline_of_mem {c : Char} (h : 0x0A ∈ String.utf8EncodeChar c) : c = '\n' :=
  Char.toNat_inj.1 (val_of_mem_utf8EncodeChar h (by decide))

theorem eq_ret_of_mem {c : Char} (h : 0x0D ∈ String.utf8EncodeChar c) : c = '\r' :=
  Char.toNat_inj.1 (val_of_mem_utf8EncodeChar h (by decide))

theorem newline_notMem_encode {cs : List Char} (h : '\n' ∉ cs) : 0x0A ∉ encode cs := by
  intro hmem
  obtain ⟨c, hc, hbyte⟩ := List.mem_flatMap.1 hmem
  exact h (eq_newline_of_mem hbyte ▸ hc)

theorem getLast?_encode_ne_ret {cs : List Char} (h : cs.getLast? ≠ some '\r') :
    (encode cs).getLast? ≠ some 0x0D := by
  rcases List.eq_nil_or_concat cs with rfl | ⟨init, c, rfl⟩
  · nofun
  · intro hlast
    rw [List.concat_eq_append, encode_append, encode_cons, List.getLast?_append] at hlast
    have hne : String.utf8EncodeChar c ≠ [] := String.utf8EncodeChar_ne_nil
    obtain ⟨b, hb⟩ := Option.ne_none_iff_exists'.1 (mt List.getLast?_eq_none_iff.1 hne)
    have hmem : b ∈ String.utf8EncodeChar c := List.mem_of_getLast? hb
    rw [encode, List.flatMap_nil, List.append_nil, hb, Option.some_or] at hlast
    obtain rfl := Option.some.inj hlast
    rw [List.concat_eq_append, List.getLast?_concat, eq_ret_of_mem hmem] at h
    exact h rfl

theorem encode_newline (cs : List Char) : encode ('\n' :: cs) = 0x0A :: encode cs := rfl

theorem encode_ret (cs : List Char) : encode (cs ++ ['\r']) = encode cs ++ [0x0D] :=
  encode_append cs ['\r']

theorem encode_eq_nil {cs : List Char} : encode cs = [] ↔ cs = [] := by
  cases cs with
  | nil => simp [encode]
  | cons c cs => simp [encode_cons, String.utf8EncodeChar_ne_nil]

/-- A sequence is taken apart line by line: its last line holds no newline, and every other line is
in front of one. -/
theorem lines_induction {α : Type} (newline : α) {motive : List α → Prop}
    (last : ∀ line, newline ∉ line → motive line)
    (cons : ∀ line rest, newline ∉ line → motive rest → motive (line ++ newline :: rest))
    (cs : List α) : motive cs := by
  induction hlength : cs.length using Nat.strongRecOn generalizing cs with
  | ind n ih =>
    by_cases hmem : newline ∈ cs
    · obtain ⟨line, rest, rfl, hline⟩ := List.eq_append_cons_of_mem hmem
      rw [List.length_append, List.length_cons] at hlength
      exact cons line rest hline (ih rest.length (by omega) rest rfl)
    · exact last cs hmem

/-- A line in front of a newline is cut off there. It loses a carriage return at its end. -/
theorem exists_splitLines_line {α : Type} [DecidableEq α] {newline : α} (ret : α)
    (hne : ret ≠ newline) {line : List α} (hline : newline ∉ line) (rest : List α) :
    ∃ cut, splitLines newline ret (line ++ newline :: rest) = cut :: splitLines newline ret rest ∧
      (line = cut ∨ line = cut ++ [ret]) := by
  by_cases hlast : line.getLast? = some ret
  · obtain ⟨cut, rfl⟩ := List.getLast?_eq_some_iff.1 hlast
    have hcut : newline ∉ cut := fun hmem => hline (List.mem_append_left _ hmem)
    refine ⟨cut, ?_, .inr rfl⟩
    rw [List.append_assoc]
    exact splitLines_append_ret_newline hne hcut rest
  · exact ⟨line, splitLines_append_newline hline hlast rest, .inl rfl⟩

theorem byteLines_encode (cs : List Char) :
    byteLines (encode cs) = (textLines cs).map encode := by
  induction cs using lines_induction '\n' with
  | last line hline =>
    by_cases hnil : line = []
    · rw [hnil]
      rfl
    · have hbytes : encode line ≠ [] := mt encode_eq_nil.1 hnil
      rw [byteLines, splitLines_of_not_mem (newline_notMem_encode hline) hbytes, textLines,
        splitLines_of_not_mem hline hnil]
      rfl
  | cons line rest hline ih =>
    by_cases hlast : line.getLast? = some '\r'
    · obtain ⟨front, rfl⟩ := List.getLast?_eq_some_iff.1 hlast
      have hfront : '\n' ∉ front := fun hmem => hline (List.mem_append_left _ hmem)
      have htext : textLines (front ++ '\r' :: '\n' :: rest) = front :: textLines rest :=
        splitLines_append_ret_newline (by decide) hfront rest
      have hbytes : byteLines (encode front ++ 0x0D :: 0x0A :: encode rest) =
          encode front :: byteLines (encode rest) :=
        splitLines_append_ret_newline (by decide) (newline_notMem_encode hfront) _
      rw [List.append_assoc, List.singleton_append, htext, encode_append, List.map_cons, ← ih]
      exact hbytes
    · have htext : textLines (line ++ '\n' :: rest) = line :: textLines rest :=
        splitLines_append_newline hline hlast rest
      have hbytes : byteLines (encode line ++ 0x0A :: encode rest) =
          encode line :: byteLines (encode rest) :=
        splitLines_append_newline (newline_notMem_encode hline) (getLast?_encode_ne_ret hlast) _
      rw [htext, encode_append, encode_newline, hbytes, ih, List.map_cons]

end Text

open Text

/-! ## Decoding -/

theorem decode?_eq_some {bytes : List UInt8} {cs : List Char} :
    decode? bytes = some cs ↔ bytes = encode cs := by
  unfold decode? String.fromUTF8?
  constructor
  · intro h
    split at h
    · next hvalid =>
      obtain rfl := Option.some.inj h
      have hbytes := toUTF8_eq (String.fromUTF8 ⟨bytes.toArray⟩ hvalid)
      exact List.toArray_inj (congrArg ByteArray.data hbytes)
    · cases h
  · rintro rfl
    have hvalid : (⟨(encode cs).toArray⟩ : ByteArray).IsValidUTF8 :=
      .intro cs (utf8Encode_eq cs).symm
    have htext : String.fromUTF8 ⟨(encode cs).toArray⟩ hvalid = String.ofList cs :=
      String.toByteArray_inj.1 (utf8Encode_eq cs).symm
    rw [dif_pos hvalid, htext, Option.map_some, String.toList_ofList]

theorem isValidUTF8_iff {bytes : ByteArray} :
    bytes.IsValidUTF8 ↔ ∃ cs, bytes.data.toList = encode cs := by
  constructor
  · rintro ⟨cs, rfl⟩
    exact ⟨cs, List.toList_data_toByteArray⟩
  · rintro ⟨cs, hcs⟩
    refine .intro cs ?_
    rw [utf8Encode_eq, ← hcs]

theorem decode?_eq_none {bytes : List UInt8} :
    decode? bytes = none ↔ ¬ ∃ cs, bytes = encode cs := by
  simp only [Option.eq_none_iff_forall_ne_some, ne_eq, decode?_eq_some, not_exists]

theorem decodedLines_toUTF8 (text : String) :
    decodedLines text.toUTF8 = sourceLines text.toList := by
  rw [decodedLines, toUTF8_eq, byteLines_encode, List.map_map, sourceLines]
  exact List.map_congr_left fun line _ => decode?_eq_some.2 rfl

/-! ## The first unreadable line -/

/-- The bytes are cut at their first line that is not valid UTF-8: in front of it stand the lines of
a text, and behind it nothing or the newline that ends it. -/
structure FirstUnreadable (bytes : List UInt8) (front : List Char) (line behind : List UInt8) :
    Prop where
  eq_append : bytes = encode front ++ (line ++ behind)
  front : front = [] ∨ front.getLast? = some '\n'
  oneLine : 0x0A ∉ line
  invalid : ¬ ByteArray.IsValidUTF8 ⟨line.toArray⟩
  behind : behind = [] ∨ behind.head? = some 0x0A

theorem exists_firstUnreadable {bytes : List UInt8}
    (h : ¬ ByteArray.IsValidUTF8 ⟨bytes.toArray⟩) :
    ∃ front line behind, FirstUnreadable bytes front line behind := by
  induction bytes using lines_induction (0x0A : UInt8) with
  | last line hline =>
    exact ⟨[], line, [], (List.append_nil line).symm, .inl rfl, hline, h, .inl rfl⟩
  | cons line rest hline ih =>
    by_cases hvalid : ByteArray.IsValidUTF8 ⟨line.toArray⟩
    · obtain ⟨cs, hcs : line = encode cs⟩ := isValidUTF8_iff.1 hvalid
      have hrest : ¬ ByteArray.IsValidUTF8 ⟨rest.toArray⟩ := by
        intro hrest
        obtain ⟨ds, hds : rest = encode ds⟩ := isValidUTF8_iff.1 hrest
        refine h (isValidUTF8_iff.2 ⟨cs ++ '\n' :: ds, ?_⟩)
        rw [encode_append, encode_newline, ← hcs, ← hds]
      obtain ⟨front, bad, behind, hbad⟩ := ih hrest
      refine ⟨cs ++ '\n' :: front, bad, behind, ?_, .inr ?_, hbad.oneLine, hbad.invalid,
        hbad.behind⟩
      · rw [encode_append, encode_newline, ← hcs, List.append_assoc, List.cons_append,
          ← hbad.eq_append]
      · rcases hbad.front with rfl | hfront
        · exact List.getLast?_concat
        · rw [List.getLast?_append, List.getLast?_cons, hfront]
          rfl
    · exact ⟨[], line, 0x0A :: rest, rfl, .inl rfl, hline, hvalid, .inr rfl⟩

/-- Without the carriage return that belongs to its end, a line is as unreadable as with it. -/
theorem exists_byteLines_line {line behind : List UInt8} (hline : 0x0A ∉ line)
    (hinvalid : ¬ ByteArray.IsValidUTF8 ⟨line.toArray⟩)
    (hbehind : behind = [] ∨ behind.head? = some 0x0A) :
    ∃ cut rest, byteLines (line ++ behind) = cut :: rest ∧ decode? cut = none := by
  have hnone : decode? line = none :=
    decode?_eq_none.2 fun hcs => hinvalid (isValidUTF8_iff.2 hcs)
  rcases hbehind with rfl | hbehind
  · have hne : line ≠ [] := by
      rintro rfl
      exact hinvalid (isValidUTF8_iff.2 ⟨[], rfl⟩)
    refine ⟨line, [], ?_, hnone⟩
    rw [List.append_nil, byteLines, splitLines_of_not_mem hline hne]
  · obtain ⟨rest, rfl⟩ := List.head?_eq_some_iff.1 hbehind
    obtain ⟨cut, hlines, rfl | rfl⟩ := exists_splitLines_line 0x0D (by decide) hline rest
    · exact ⟨line, byteLines rest, hlines, hnone⟩
    · refine ⟨cut, byteLines rest, hlines, decode?_eq_none.2 ?_⟩
      rintro ⟨cs, rfl⟩
      exact hinvalid (isValidUTF8_iff.2 ⟨cs ++ ['\r'], (encode_ret cs).symm⟩)

/-- The lines in front of the first unreadable one are those of a text. -/
theorem FirstUnreadable.exists_decodedLines {bytes : ByteArray} {front : List Char}
    {line behind : List UInt8} (h : FirstUnreadable bytes.data.toList front line behind) :
    ∃ rest, decodedLines bytes = sourceLines front ++ none :: rest := by
  obtain ⟨cut, rest, hlines, hcut⟩ := exists_byteLines_line h.oneLine h.invalid h.behind
  have hfront : byteLines (encode front ++ (line ++ behind)) =
      byteLines (encode front) ++ byteLines (line ++ behind) := by
    rcases h.front with hnil | hlast
    · rw [hnil]
      rfl
    · obtain ⟨init, rfl⟩ := List.getLast?_eq_some_iff.1 hlast
      have hbytes : (encode (init ++ ['\n'])).getLast? = some 0x0A := by
        rw [encode_append, encode_newline]
        exact List.getLast?_concat
      exact splitLines_append hbytes _
  refine ⟨rest.map decode?, ?_⟩
  rw [decodedLines, h.eq_append, hfront, hlines, byteLines_encode, List.map_append, List.map_map,
    List.map_cons, hcut, sourceLines]
  exact congrArg (· ++ _) (List.map_congr_left fun line _ => decode?_eq_some.2 rfl)

theorem length_textLines {cs : List Char} (h : cs = [] ∨ cs.getLast? = some '\n') :
    (textLines cs).length = cs.count '\n' := by
  induction cs using lines_induction '\n' with
  | last line hline =>
    rcases h with rfl | h
    · rfl
    · exact absurd (List.mem_of_getLast? h) hline
  | cons line rest hline ih =>
    have hrest : rest = [] ∨ rest.getLast? = some '\n' := by
      cases rest with
      | nil => exact .inl rfl
      | cons c rest =>
        rw [List.getLast?_append, List.getLast?_cons_cons] at h
        cases hlast : (c :: rest).getLast? with
        | none => exact absurd (List.getLast?_eq_none_iff.1 hlast) nofun
        | some last =>
          rw [hlast] at h
          exact .inr (h.resolve_left (by simp))
    obtain ⟨cut, hlines, _⟩ := exists_splitLines_line '\r' (by decide) hline rest
    have htext : textLines (line ++ '\n' :: rest) = cut :: textLines rest := hlines
    rw [htext, List.length_cons, ih hrest, List.count_append, List.count_eq_zero.2 hline,
      Nat.zero_add, List.count_cons_self]

namespace Assembly

/-- Reading lines fails as the first call does that fails, when each of them is read by a call. -/
theorem readAll_failure?_eq {σ : Type} (rules : LineRules σ) (policy : Policy) (a : Assembly σ)
    (texts : List (List Char)) :
    (a.readAll rules policy (texts.map some)).failure? =
      (a.feedAll rules policy (texts.map .text)).2.findSome? id := by
  induction texts generalizing a with
  | nil => rfl
  | cons line texts ih =>
    have hcall : (a.feed rules policy (.text line)).failure? =
        (a.read rules policy line).failure? := rfl
    rw [List.map_cons, List.map_cons, feedAll, List.findSome?_cons, hcall]
    cases hread : (a.read rules policy line).failure? with
    | some failure => exact readAll_cons_of_failure? hread _ ▸ hread
    | none => rw [readAll_cons hread]; exact ih _

end Assembly

open Assembly

/-- The bytes of a text compile to what the text compiles to. All other bytes can be cut at their
first line that is not valid UTF-8, and they do not compile: the failure is the first one that the
lines in front of it meet when they are read one by one, which is that of a rejected line or of a
repeated id that is looked for while reading; if there is none, it is that line that cannot be read.
What the line holds besides, and what stands behind it, makes no difference. -/
theorem compileBytes_lines (policy : Policy) (bytes : ByteArray) :
    (∀ text, String.fromUTF8? bytes = some text →
      compileBytes policy bytes = compileText policy text) ∧
    (¬ bytes.IsValidUTF8 →
      ∃ front line behind, FirstUnreadable bytes.data.toList front line behind) ∧
    ∀ front line behind, FirstUnreadable bytes.data.toList front line behind →
      let number := front.count '\n' + 1
      let raised := (start.feedAll grammar policy ((textLines front).map .text)).2.findSome? id
      (compileBytes policy bytes).result =
        .error (raised.getD ⟨number, .unreadableSource⟩) ∧
      ∀ failure, raised = some failure →
        failure.line < number ∧ failure.fault.StopsReading policy.idCheck := by
  refine ⟨fun text htext => ?_, exists_firstUnreadable, fun front line behind h => ?_⟩
  · have hbytes : bytes = text.toUTF8 := by
      unfold String.fromUTF8? at htext
      split at htext
      · obtain rfl := Option.some.inj htext
        rfl
      · cases htext
    rw [compileBytes, hbytes, decodedLines_toUTF8, compileText]
  · intro number raised
    have hraised : (start.readAll grammar policy (sourceLines front)).failure? = raised :=
      readAll_failure?_eq grammar policy start (textLines front)
    refine ⟨?_, fun failure hfailure => ?_⟩
    · obtain ⟨rest, hlines⟩ := h.exists_decodedLines
      rw [compileBytes, hlines]
      cases hfront : raised with
      | some failure =>
        exact complete_of_failure? (readAll_append_of_failure? (hraised.trans hfront) _)
      | none =>
        have hread := hraised.trans hfront
        have hcount : (start.readAll grammar policy (sourceLines front)).next.lineCount + 1 =
            number := by
          rw [sourceLines, readAll_lineCount hread, length_textLines h.front]
          exact congrArg (· + 1) (Nat.zero_add _)
        rw [complete_append hread, ← hcount]
        rfl
    · obtain ⟨i, hi, hline, hstops, _⟩ :=
        exists_of_readAll_texts (hraised.trans hfailure)
      rw [length_textLines h.front] at hi
      refine ⟨?_, hstops⟩
      rw [hline, show start.lineCount = 0 from rfl]
      omega

/-- A byte in a comment inside a message that no character has, a piece of a character at the end of
a schema with a rejected line, and the bytes of a text. -/
theorem compileBytes_lines_runs :
    let comment : ByteArray :=
      ⟨(encode "message A \x7b\n".toList ++ ([0x2F, 0x2F, 0xFF] ++ [0x0A, 0x7D])).toArray⟩
    let piece : ByteArray := ⟨(encode "x\n".toList ++ ([0xC3] ++ [])).toArray⟩
    (compileBytes {} comment).result = .error ⟨2, .unreadableSource⟩ ∧
    (compileBytes {} piece).result = .error ⟨1, .unrecognizedLine "\"x\"" .notAStatement⟩ ∧
    compileBytes {} "message A \x7b\r\n\x7d".toUTF8 =
      compileText {} "message A \x7b\r\n\x7d" := by
  intro comment piece
  have hcomment : FirstUnreadable comment.data.toList "message A \x7b\n".toList [0x2F, 0x2F, 0xFF]
      [0x0A, 0x7D] :=
    ⟨rfl, .inr rfl, by decide, by decide +kernel, .inr rfl⟩
  have hpiece : FirstUnreadable piece.data.toList "x\n".toList [0xC3] [] :=
    ⟨rfl, .inr rfl, by decide, by decide +kernel, .inl rfl⟩
  refine ⟨?_, ?_, ?_⟩
  · exact ((compileBytes_lines {} comment).2.2 _ _ _ hcomment).1
  · exact ((compileBytes_lines {} piece).2.2 _ _ _ hpiece).1
  · exact (compileBytes_lines {} _).1 _ (by rfl)

end ProtoSchema
