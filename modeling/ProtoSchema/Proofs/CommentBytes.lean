import ProtoSchema.Proofs.CommentPlaces
import ProtoSchema.Proofs.SourceBytes

/-!
# Comments in bytes

A line can be scanned in its UTF-8 bytes as well as in its characters. A `ByteScan` goes from byte
to byte and knows nothing of characters: it keeps the quote that opened a literal and whether a
backslash stands in front of the next byte. Quotes, backslashes and slashes are bytes below 0x80,
and no byte of a longer encoding is one of them. So the scan of the bytes stops at the first byte of
a character, and what stands in front of it is the same.

Results:
* `foldl_next_encodeChar`: the bytes of a character take the scan where the character takes it;
* `commentIndex_encode`: the scan of the bytes stops where the scan of the characters does;
* `codeOfBytes?_encode`, `codeOfBytes?_toUTF8`: the bytes of a line have the code of the line.
-/
namespace ProtoSchema.Text

/-! ## Scanning bytes -/

/-- Where a scan of a line in UTF-8 stands between two bytes. -/
structure ByteScan where
  /-- The quote that opened the literal around the scan. -/
  quote? : Option UInt8 := none
  /-- A backslash in the literal takes the next byte with it. -/
  escaped : Bool := false
  deriving DecidableEq, Repr

/-- The scan after one more byte. -/
def ByteScan.next (scan : ByteScan) (b : UInt8) : ByteScan :=
  match scan.quote? with
  | some quote =>
    if scan.escaped then { scan with escaped := false }
    else if b = '\\'.toUInt8 then { scan with escaped := true }
    else if b = quote then { scan with quote? := none }
    else scan
  | none => if b = '"'.toUInt8 ∨ b = '\''.toUInt8 then { scan with quote? := some b } else scan

/-- How many bytes stand in front of the first comment marker outside every literal. -/
def commentIndex : ByteScan → List UInt8 → Nat
  | _, [] => 0
  | scan, b :: bytes =>
    if scan.quote? = none ∧ (commentMarker.map Char.toUInt8).isPrefixOf (b :: bytes) then 0
    else commentIndex (scan.next b) bytes + 1

/-- The code of a line that is given in bytes; none if the line is cut inside a character. -/
def codeOfBytes? (bytes : List UInt8) : Option (List Char) :=
  (decode? (bytes.take (commentIndex {} bytes))).map trimEnd

/-! ## Bytes of single characters -/

theorem utf8EncodeChar_of_lt {c : Char} (h : c.toNat < 0x80) :
    String.utf8EncodeChar c = [c.toUInt8] :=
  String.utf8EncodeChar_eq_singleton
    (Char.utf8Size_eq_one_iff.2 (UInt32.le_iff_toNat_le.2 (Nat.le_of_lt_succ h)))

theorem toNat_toUInt8 {c : Char} (h : c.toNat < 0x80) : c.toUInt8.toNat = c.toNat :=
  (UInt32.toNat_toUInt8 c.val).trans (Nat.mod_eq_of_lt (Nat.lt_trans h (by decide)))

theorem le_of_mem_utf8EncodeChar {c : Char} (h : 0x80 ≤ c.toNat) {b : UInt8}
    (hb : b ∈ String.utf8EncodeChar c) : 0x80 ≤ b.toNat := by
  refine Nat.le_of_not_lt fun hlt => ?_
  rw [val_of_mem_utf8EncodeChar hb hlt] at h
  exact absurd hlt (Nat.not_lt.2 h)

/-- A byte below 0x80 among the bytes of a character is that character. -/
theorem mem_utf8EncodeChar_iff {c d : Char} (hd : d.toNat < 0x80) :
    d.toUInt8 ∈ String.utf8EncodeChar c ↔ c = d := by
  constructor
  · intro h
    have hc := val_of_mem_utf8EncodeChar h (by rwa [toNat_toUInt8 hd])
    exact Char.toNat_inj.1 (hc.trans (toNat_toUInt8 hd))
  · rintro rfl
    rw [utf8EncodeChar_of_lt hd]
    exact List.mem_singleton.2 rfl

theorem toUInt8_inj {c d : Char} (hc : c.toNat < 0x80) (hd : d.toNat < 0x80) :
    c.toUInt8 = d.toUInt8 ↔ c = d := by
  rw [← mem_utf8EncodeChar_iff hd, utf8EncodeChar_of_lt hc, List.mem_singleton, eq_comm]

theorem IsQuote.toNat_lt {c : Char} (h : IsQuote c) : c.toNat < 0x80 := by
  rcases h with rfl | rfl <;> decide

/-! ## States -/

/-- The state of the bytes for a state of the characters. -/
def Scan.toBytes : Scan → ByteScan
  | .outside => {}
  | .literal quote => { quote? := some quote.toUInt8 }
  | .escape quote => { quote? := some quote.toUInt8, escaped := true }

/-- A literal that the scan stands in was opened by a quote. -/
def Scan.Quoted : Scan → Prop
  | .outside => True
  | .literal quote | .escape quote => IsQuote quote

theorem Scan.Quoted.next {scan : Scan} (h : scan.Quoted) (c : Char) : (scan.next c).Quoted := by
  cases scan with
  | outside =>
    by_cases hc : IsQuote c
    · rwa [next_outside_of_isQuote hc]
    · rw [next_outside_of_not_isQuote hc]
      trivial
  | literal quote =>
    by_cases hbackslash : c = '\\'
    · rwa [hbackslash, next_literal_backslash]
    · by_cases hquote : c = quote
      · rw [hquote, next_literal_quote h]
        trivial
      · rwa [next_literal_of_ne hbackslash hquote]
  | escape quote => exact h

theorem quote?_toBytes {scan : Scan} : scan.toBytes.quote? = none ↔ scan = .outside := by
  cases scan <;> simp [Scan.toBytes]

theorem Scan.Quoted.quote_lt {scan : Scan} (h : scan.Quoted) {b : UInt8}
    (hb : scan.toBytes.quote? = some b) : b.toNat < 0x80 := by
  cases scan with
  | outside => cases hb
  | literal quote | escape quote =>
    obtain rfl : quote.toUInt8 = b := Option.some.inj hb
    rw [toNat_toUInt8 (IsQuote.toNat_lt h)]
    exact IsQuote.toNat_lt h

/-- Bytes of longer encodings matter only behind a backslash, where the first of them is taken. -/
theorem foldl_next_of_le {scan : ByteScan} {bytes : List UInt8} (hescaped : scan.escaped = false)
    (hquote : ∀ {quote}, scan.quote? = some quote → quote.toNat < 0x80)
    (h : ∀ b ∈ bytes, 0x80 ≤ b.toNat) : bytes.foldl ByteScan.next scan = scan := by
  induction bytes with
  | nil => rfl
  | cons b bytes ih =>
    obtain ⟨hb, hbytes⟩ := List.forall_mem_cons.1 h
    have hne : ∀ d : UInt8, d.toNat < 0x80 → b ≠ d := fun d hd heq =>
      absurd hd (Nat.not_lt.2 (heq ▸ hb))
    have hnext : scan.next b = scan := by
      unfold ByteScan.next
      split
      · next quote hsome =>
        rw [hescaped, if_neg Bool.false_ne_true, if_neg (hne _ (by decide)),
          if_neg (hne _ (hquote hsome))]
      · exact if_neg (not_or.2 ⟨hne _ (by decide), hne _ (by decide)⟩)
    rw [List.foldl_cons, hnext, ih hbytes]

theorem next_toBytes {scan : Scan} (hscan : scan.Quoted) {c : Char} (hc : c.toNat < 0x80) :
    scan.toBytes.next c.toUInt8 = (scan.next c).toBytes := by
  cases scan with
  | outside =>
    have hdouble : c.toUInt8 = '"'.toUInt8 ↔ c = '"' := toUInt8_inj hc (by decide)
    have hsingle : c.toUInt8 = '\''.toUInt8 ↔ c = '\'' := toUInt8_inj hc (by decide)
    simp only [Scan.toBytes, ByteScan.next, Scan.next, hdouble, hsingle]
    split <;> rfl
  | literal quote =>
    have hbackslash : c.toUInt8 = '\\'.toUInt8 ↔ c = '\\' := toUInt8_inj hc (by decide)
    simp only [Scan.toBytes, ByteScan.next, Scan.next, Bool.false_eq_true, if_false, hbackslash,
      toUInt8_inj hc (IsQuote.toNat_lt hscan)]
    split
    · rfl
    · split <;> rfl
  | escape quote => rfl

/-- The bytes of a character take the scan where the character takes it. -/
theorem foldl_next_encodeChar {scan : Scan} (hscan : scan.Quoted) (c : Char) :
    (String.utf8EncodeChar c).foldl ByteScan.next scan.toBytes = (scan.next c).toBytes := by
  by_cases hc : c.toNat < 0x80
  · rw [utf8EncodeChar_of_lt hc]
    exact next_toBytes hscan hc
  · have hbytes : ∀ b ∈ String.utf8EncodeChar c, 0x80 ≤ b.toNat := fun _ =>
      le_of_mem_utf8EncodeChar (Nat.le_of_not_lt hc)
    have hne : ∀ d : Char, d.toNat < 0x80 → c ≠ d := fun d hd heq => hc (heq ▸ hd)
    cases scan with
    | outside =>
      rw [next_outside_of_not_isQuote fun h => hc h.toNat_lt]
      exact foldl_next_of_le rfl nofun hbytes
    | literal quote =>
      rw [next_literal_of_ne (hne _ (by decide)) (hne _ (IsQuote.toNat_lt hscan))]
      exact foldl_next_of_le rfl hscan.quote_lt hbytes
    | escape quote =>
      -- The backslash takes the first byte only; the others are bytes of the literal.
      obtain ⟨b, bytes, hsplit⟩ := List.exists_cons_of_ne_nil
        (String.utf8EncodeChar_ne_nil (c := c))
      rw [hsplit] at hbytes ⊢
      exact foldl_next_of_le rfl (hscan.next c).quote_lt (List.forall_mem_cons.1 hbytes).2

/-! ## Lines -/

theorem head?_encode {d : Char} (hd : d.toNat < 0x80) (cs : List Char) :
    (encode cs).head? = some d.toUInt8 ↔ cs.head? = some d := by
  cases cs with
  | nil => simp [encode]
  | cons c cs =>
    obtain ⟨b, bytes, hsplit⟩ :=
      List.exists_cons_of_ne_nil (String.utf8EncodeChar_ne_nil (c := c))
    rw [encode_cons, hsplit, List.cons_append, List.head?_cons, List.head?_cons, Option.some.injEq,
      Option.some.injEq]
    constructor
    · rintro rfl
      rw [← mem_utf8EncodeChar_iff hd, hsplit]
      exact List.mem_cons_self
    · rintro rfl
      rw [utf8EncodeChar_of_lt hd] at hsplit
      exact (List.cons.inj hsplit).1.symm

/-- No comment starts at bytes other than slashes. -/
theorem commentIndex_append {scan : ByteScan} {bytes : List UInt8} (h : '/'.toUInt8 ∉ bytes)
    (rest : List UInt8) :
    commentIndex scan (bytes ++ rest) =
      bytes.length + commentIndex (bytes.foldl ByteScan.next scan) rest := by
  induction bytes generalizing scan with
  | nil => rw [List.nil_append, List.length_nil, Nat.zero_add, List.foldl_nil]
  | cons b bytes ih =>
    obtain ⟨hb, hbytes⟩ := List.ne_and_not_mem_of_not_mem_cons h
    have hnone : ¬ (scan.quote? = none ∧
        (commentMarker.map Char.toUInt8).isPrefixOf (b :: (bytes ++ rest)) = true) := by
      rintro ⟨-, hmarker⟩
      exact hb (List.cons_prefix_cons.1 (List.isPrefixOf_iff_prefix.1 hmarker)).1
    rw [List.cons_append, commentIndex, if_neg hnone, ih hbytes, List.foldl_cons, List.length_cons,
      Nat.add_right_comm]

theorem isPrefixOf_markerBytes (cs : List Char) :
    (commentMarker.map Char.toUInt8).isPrefixOf ('/'.toUInt8 :: encode cs) = true ↔
      cs.head? = some '/' := by
  rw [← head?_encode (by decide) cs]
  cases encode cs <;> simp [commentMarker, List.isPrefixOf, eq_comm (a := '/'.toUInt8)]

/-- The scan of the bytes stops where the scan of the characters does. -/
theorem commentIndex_encode {scan : Scan} (hscan : scan.Quoted) (cs : List Char) :
    commentIndex scan.toBytes (encode cs) = (encode (beforeComment scan cs)).length := by
  induction cs generalizing scan with
  | nil => rfl
  | cons c cs ih =>
    have hrest := ih (hscan.next c)
    -- Only a slash makes the scans look ahead; the character after it shows in its first byte.
    by_cases hslash : c = '/'
    · subst hslash
      have hencode : encode ('/' :: cs) = '/'.toUInt8 :: encode cs := rfl
      rw [hencode, commentIndex, beforeComment]
      simp only [quote?_toBytes, isPrefixOf_markerBytes, isPrefixOf_commentMarker, true_and]
      split
      · rfl
      · rw [next_toBytes hscan (by decide), hrest, encode_cons, List.length_append, Nat.add_comm]
        rfl
    · have hbytes : '/'.toUInt8 ∉ String.utf8EncodeChar c := fun hmem =>
        hslash ((mem_utf8EncodeChar_iff (by decide)).1 hmem)
      have hnone : ¬ (scan = .outside ∧ commentMarker.isPrefixOf (c :: cs) = true) := fun h =>
        hslash (isPrefixOf_commentMarker.1 h.2).1
      rw [encode_cons, commentIndex_append hbytes, foldl_next_encodeChar hscan, hrest,
        beforeComment, if_neg hnone, encode_cons, List.length_append]

/-- The bytes in front of the cut are those of what stands before the comment. -/
theorem take_commentIndex_encode (line : List Char) :
    (encode line).take (commentIndex {} (encode line)) = encode (beforeComment .outside line) := by
  obtain ⟨comment, hsplit⟩ := beforeComment_isPrefix .outside line
  have hindex : commentIndex {} (encode line) = (encode (beforeComment .outside line)).length :=
    @commentIndex_encode .outside trivial line
  have hencode : encode line = encode (beforeComment .outside line) ++ encode comment := by
    rw [← encode_append, hsplit]
  rw [hindex, hencode, List.take_left]

theorem codeOfBytes?_encode (line : List Char) : codeOfBytes? (encode line) = some (code line) := by
  rw [codeOfBytes?, take_commentIndex_encode, decode?_eq_some.2 rfl]
  rfl

/-- The code of a line, found in its bytes. The line is never cut inside a character. What is left
is the one part of the line that stands in front of its comment and of the blanks there. A literal
that nothing closes reaches to the end of the line. -/
theorem codeOfBytes?_toUTF8 (line : String) :
    (∃ front comment, CommentSplit line.toList front comment ∧
      line.toUTF8.data.toList.take (commentIndex {} line.toUTF8.data.toList) = encode front) ∧
    codeOfBytes? line.toUTF8.data.toList = some (code line.toList) ∧
    (∀ kept, codeOfBytes? line.toUTF8.data.toList = some kept ↔
      ∃ w comment, CommentSplit line.toList (kept ++ w) comment ∧ AllBlank w ∧
        NotAhead isBlank kept.reverse) ∧
    ∀ front quote body, line.toList = front ++ quote :: body → Closed front →
      (∀ front', ¬ MarkerBehind front front') → IsQuote quote →
      (∀ inner, LiteralBody quote inner → ¬ inner ++ [quote] <+: body) →
      codeOfBytes? line.toUTF8.data.toList = some (trimEnd line.toList) := by
  have hcode := codeOfBytes?_encode line.toList
  rw [toUTF8_eq]
  refine ⟨?_, hcode, fun kept => ?_, fun front quote body hline hfront hnone hquote hopen => ?_⟩
  · obtain ⟨comment, hsplit⟩ := beforeComment_isPrefix .outside line.toList
    exact ⟨_, comment, commentSplit_iff.2 ⟨hsplit, rfl⟩, take_commentIndex_encode line.toList⟩
  · rw [hcode, Option.some.injEq, eq_comm, eq_code_iff]
  · rw [hcode, hline, code_of_unclosed hfront hnone hquote hopen]

/-- A marker in a literal that stays open, between characters of several bytes. -/
theorem codeOfBytes?_toUTF8_runs :
    codeOfBytes? "“x” = 'a\\' → // é\u2003".toUTF8.data.toList =
      some "“x” = 'a\\' → // é".toList := by
  let body := "a\\' → // é\u2003".toList
  have hfront : ∀ front', ¬ MarkerBehind "“x” = ".toList front' :=
    beforeComment_eq_iff.1 (by decide)
  have hopen : ∀ inner, LiteralBody '\'' inner → ¬ inner ++ ['\''] <+: body := by
    intro inner hinner hprefix
    have hscan : (inner ++ ['\'']).foldl Scan.next (.literal '\'') = .outside := by
      rw [List.foldl_append, hinner.foldl_next]
      rfl
    have hnever : ∀ k ≤ body.length, (body.take k).foldl Scan.next (.literal '\'') ≠ .outside := by
      decide
    rw [List.prefix_iff_eq_take.1 hprefix] at hscan
    exact hnever _ hprefix.length_le hscan
  rw [(codeOfBytes?_toUTF8 "“x” = 'a\\' → // é\u2003").2.2.2 _ _ body (by decide)
    (closed_iff.2 (by decide)) hfront (.inr rfl) hopen]
  decide

end ProtoSchema.Text
