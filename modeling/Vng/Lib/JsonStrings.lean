import Vng.Lib.Json

/-!
# Strings in a JSON text

The raw text of a string against its content: the quotes and backslashes that each quote of the
content costs, and the strings that stand for themselves.
-/

namespace Json

variable {text rest raw content : Text}

/-! ## Escapes -/

/-- The number of quotes and backslashes in a string. -/
def marks (content : Text) : ℕ := content.count quote + content.count backslash

/-- The bytes of a text that strings are paid with: a backslash stands for two quotes. -/
def tally (text : Text) : ℕ := text.count quote + 2 * text.count backslash

/-- The tally of a text is that of its parts. -/
@[simp] lemma tally_append (text rest : Text) : tally (text ++ rest) = tally text + tally rest := by
  unfold tally
  rw [List.count_append, List.count_append]
  omega

/-- One byte is paid for after the other. -/
lemma tally_cons (b : BitVec 8) (text : Text) : tally (b :: text) = tally [b] + tally text :=
  tally_append [b] text

lemma tally_quote_cons (text : Text) : tally (quote :: text) = 1 + tally text :=
  tally_cons quote text

@[simp] lemma marks_append (content rest : Text) :
    marks (content ++ rest) = marks content + marks rest := by
  unfold marks
  rw [List.count_append, List.count_append]
  omega

/-- A text without quotes and backslashes pays for nothing. -/
lemma tally_eq_zero (hquote : quote ∉ text) (hbackslash : backslash ∉ text) : tally text = 0 := by
  unfold tally
  rw [List.count_eq_zero.mpr hquote, List.count_eq_zero.mpr hbackslash]

/-- Blanks pay for nothing. -/
lemma tally_space (h : ∀ b ∈ text, isSpace b = true) : tally text = 0 :=
  tally_eq_zero (fun hb => absurd (h quote hb) (by decide))
    (fun hb => absurd (h backslash hb) (by decide))

/-- Neither do digits. -/
lemma tally_natural (n : ℕ) : tally (Decimal.natural n) = 0 :=
  tally_eq_zero (fun hb => absurd (Decimal.isDigit_of_mem_natural hb) (by decide))
    (fun hb => absurd (Decimal.isDigit_of_mem_natural hb) (by decide))

/-- Nor does a sign in front of them. -/
lemma tally_integer (n : ℤ) : tally (Decimal.integer n) = 0 := by
  unfold Decimal.integer
  split_ifs
  · rw [tally_cons, tally_natural]
    rfl
  · exact tally_natural _

/-- What has been read of a text only lowers its tally. -/
lemma tally_le_of_suffix (h : rest <:+ text) : tally rest ≤ tally text := by
  have hquote := h.sublist.count_le quote
  have hbackslash := h.sublist.count_le backslash
  unfold tally
  omega

/-- How the raw text of a string, without its quotes, stands to the content. -/
structure Denotes (raw content : Text) : Prop where
  marks_le : 2 * marks content ≤ tally raw
  quote_notMem : quote ∉ content → quote ∉ raw
  control : ∀ b ∈ raw, 0x20 ≤ b.toNat
  length_le : content.length ≤ raw.length
  plain : content.length = raw.length → content = raw ∧ backslash ∉ raw

lemma denotes_nil : Denotes [] [] := by
  constructor <;> simp [marks]

/-- Pieces of a string are read one by one. -/
lemma Denotes.append {raw' content' : Text} (h : Denotes raw content) (h' : Denotes raw' content') :
    Denotes (raw ++ raw') (content ++ content') := by
  have hlength := h.length_le
  have hlength' := h'.length_le
  constructor
  · have hmarks := h.marks_le
    have hmarks' := h'.marks_le
    rw [marks_append, tally_append]
    omega
  · intro hnot
    rw [List.mem_append, not_or] at hnot ⊢
    exact ⟨h.quote_notMem hnot.1, h'.quote_notMem hnot.2⟩
  · intro b hb
    rcases List.mem_append.mp hb with hb | hb
    · exact h.control b hb
    · exact h'.control b hb
  · rw [List.length_append, List.length_append]
    omega
  -- both pieces are as long as their contents, so both are plain
  · intro heq
    rw [List.length_append, List.length_append] at heq
    have hplain := h.plain (by omega)
    have hplain' := h'.plain (by omega)
    rw [hplain.1, hplain'.1, List.mem_append, not_or]
    exact ⟨rfl, hplain.2, hplain'.2⟩

/-- A byte that is neither a control character nor a mark stands for itself. -/
lemma denotes_plain {b : BitVec 8} (hcontrol : 0x20 ≤ b.toNat) (hquote : b ≠ quote)
    (hbackslash : b ≠ backslash) : Denotes [b] [b] := by
  have hzero : [b].count quote = 0 := List.count_eq_zero.mpr (by simpa using hquote.symm)
  have hzero' : [b].count backslash = 0 := List.count_eq_zero.mpr (by simpa using hbackslash.symm)
  constructor
  · unfold marks tally
    omega
  · exact id
  · simpa using hcontrol
  · exact le_rfl
  · exact fun _ => ⟨rfl, List.count_eq_zero.mp hzero'⟩

/-- Bytes beyond ASCII are no marks. -/
lemma marks_eq_zero {bytes : Text} (h : ∀ b ∈ bytes, 0x80 ≤ b.toNat) : marks bytes = 0 := by
  have hquote : bytes.count quote = 0 :=
    List.count_eq_zero.mpr fun hb => absurd (h quote hb) (by decide)
  have hbackslash : bytes.count backslash = 0 :=
    List.count_eq_zero.mpr fun hb => absurd (h backslash hb) (by decide)
  unfold marks
  omega

/-- One byte is at most one mark. -/
lemma marks_singleton_le (b : BitVec 8) : marks [b] ≤ 1 := by
  by_cases h : b = quote
  · subst h
    decide
  · have hzero : [b].count quote = 0 := List.count_eq_zero.mpr (by simpa using fun h' => h h'.symm)
    have hle := List.count_le_length (a := backslash) (l := [b])
    rw [List.length_singleton] at hle
    unfold marks
    omega

/-- A character in UTF-8 has no marks beyond ASCII. -/
lemma marks_encode_le (n : ℕ) : marks (Utf8.encode n) ≤ 1 := by
  unfold Utf8.encode
  split_ifs with hone htwo hthree
  · exact marks_singleton_le _
  all_goals
    rw [marks_eq_zero]
    · exact Nat.zero_le 1
    · simp
      omega

/-- A character has at most four bytes in UTF-8. -/
lemma length_encode_le (n : ℕ) : (Utf8.encode n).length ≤ 4 := by
  unfold Utf8.encode
  split_ifs <;> simp

/-! ## Strings -/

/-- An escape for at most one mark: the backslash pays for it. -/
lemma denotes_escape {bytes : Text} (hmarks : marks bytes ≤ 1)
    (hquote : quote ∉ bytes → quote ∉ raw) (hcontrol : ∀ b ∈ raw, 0x20 ≤ b.toNat)
    (hlength : bytes.length ≤ raw.length) : Denotes (backslash :: raw) bytes := by
  constructor
  · rw [tally_cons, show tally [backslash] = 2 from rfl]
    omega
  · intro hnot
    rw [List.mem_cons, not_or]
    exact ⟨by decide, hquote hnot⟩
  · intro b hb
    rcases List.mem_cons.mp hb with rfl | hb
    · decide
    · exact hcontrol b hb
  · rw [List.length_cons]
    omega
  · intro heq
    rw [List.length_cons] at heq
    omega

/-- No byte of the text is a control character or a quote. -/
def Clean (raw : Text) : Prop := ∀ b ∈ raw, 0x20 ≤ b.toNat ∧ b ≠ quote

lemma Clean.quote_notMem (h : Clean raw) : quote ∉ raw := fun hb => (h quote hb).2 rfl

/-- The digits of an escape are clean. -/
lemma clean_of_hexValue {b : BitVec 8} {n : ℕ} (h : hexValue b = some n) :
    0x20 ≤ b.toNat ∧ b ≠ quote := by
  have hnat : 0x20 ≤ b.toNat ∧ b.toNat ≠ quote.toNat := by
    rw [show quote.toNat = 0x22 from rfl]
    unfold hexValue at h
    split_ifs at h <;> omega
  exact ⟨hnat.1, fun heq => hnat.2 (congrArg BitVec.toNat heq)⟩

/-- `\uXXXX` has four clean digits behind the `u`. -/
lemma parseHex_spec {n : ℕ} (h : parseHex text = some (n, rest)) :
    ∃ raw, text = raw ++ rest ∧ 4 ≤ raw.length ∧ Clean raw := by
  unfold parseHex at h
  split at h
  · next a b c d text =>
    simp only [Option.bind_eq_bind, Option.bind_eq_some_iff, Option.pure_def, Option.some.injEq,
      Prod.mk.injEq] at h
    obtain ⟨x, hx, y, hy, z, hz, w, hw, -, rfl⟩ := h
    refine ⟨[a, b, c, d], rfl, le_rfl, ?_⟩
    unfold Clean
    simp only [List.forall_mem_cons]
    exact ⟨clean_of_hexValue hx, clean_of_hexValue hy, clean_of_hexValue hz, clean_of_hexValue hw,
      by simp⟩
  · cases h

/-- A code point is one such escape, or two with `\u` between them. -/
lemma parseUnicode_spec {n : ℕ} (h : parseUnicode text = some (n, rest)) :
    ∃ raw, text = raw ++ rest ∧ 4 ≤ raw.length ∧ Clean raw := by
  unfold parseUnicode at h
  obtain ⟨⟨m, text₁⟩, hhex, hrest⟩ := Option.bind_eq_some_iff.mp h
  obtain ⟨raw, rfl, hlength, hclean⟩ := parseHex_spec hhex
  dsimp only at hrest
  split_ifs at hrest with hone hlow
  · obtain ⟨-, rfl⟩ := Prod.mk.inj (Option.some.inj hrest)
    exact ⟨raw, rfl, hlength, hclean⟩
  -- a high surrogate: the marker and the low one follow
  · split at hrest
    · next a b text₂ =>
      split_ifs at hrest with hmarker
      obtain ⟨⟨m', text₃⟩, hhex', hlow⟩ := Option.bind_eq_some_iff.mp hrest
      obtain ⟨raw', rfl, -, hclean'⟩ := parseHex_spec hhex'
      dsimp only at hlow
      split_ifs at hlow
      obtain ⟨-, rfl⟩ := Prod.mk.inj (Option.some.inj hlow)
      refine ⟨raw ++ a :: b :: raw', by simp, by simp; omega, ?_⟩
      intro c hc
      rcases List.mem_append.mp hc with hc | hc
      · exact hclean c hc
      -- the marker between the two escapes
      · rcases List.mem_cons.mp hc with rfl | hc
        · rw [hmarker.1]
          decide
        · rcases List.mem_cons.mp hc with rfl | hc
          · rw [hmarker.2]
            decide
          · exact hclean' c hc
    · cases hrest

/-- Letters that stand behind a backslash are not control characters, and a quote stands for
itself. -/
lemma unescape_spec {b c : BitVec 8} (h : unescape b = some c) :
    0x20 ≤ b.toNat ∧ (b = quote → c = quote) := by
  unfold unescape at h
  split_ifs at h with hself hb hf hn hr ht
  -- a quote, a backslash or a slash stands for itself
  · obtain rfl := Option.some.inj h
    refine ⟨?_, id⟩
    rcases hself with rfl | rfl | rfl <;> decide
  all_goals
    subst b
    exact ⟨by decide, fun heq => absurd heq (by decide)⟩

/-- What is read behind a backslash denotes what it stands for. -/
lemma parseEscape_spec {bytes : Text} (h : parseEscape text = some (bytes, rest)) :
    ∃ raw, text = raw ++ rest ∧ Denotes (backslash :: raw) bytes := by
  unfold parseEscape at h
  split at h
  · cases h
  · next b text =>
    split_ifs at h with hunicode
    -- a code point, which is at most one mark
    · obtain ⟨⟨n, text₁⟩, hn, h⟩ := Option.bind_eq_some_iff.mp h
      obtain ⟨rfl, rfl⟩ := Prod.mk.inj (Option.some.inj h)
      obtain ⟨raw, rfl, hlength, hclean⟩ := parseUnicode_spec hn
      have hencode := length_encode_le n
      refine ⟨b :: raw, rfl, denotes_escape (marks_encode_le n) ?_ ?_ ?_⟩
      · intro _ hmem
        rcases List.mem_cons.mp hmem with heq | hmem
        · rw [hunicode] at heq
          exact absurd heq (by decide)
        · exact hclean.quote_notMem hmem
      · intro c hc
        rcases List.mem_cons.mp hc with rfl | hc
        · rw [hunicode]
          decide
        · exact (hclean c hc).1
      · rw [List.length_cons]
        omega
    -- one letter for one byte
    · obtain ⟨c, hc, h⟩ := Option.bind_eq_some_iff.mp h
      obtain ⟨rfl, rfl⟩ := Prod.mk.inj (Option.some.inj h)
      obtain ⟨hcontrol, hquote⟩ := unescape_spec hc
      refine ⟨[b], rfl, denotes_escape (marks_singleton_le c) ?_ ?_ le_rfl⟩
      · intro hnot hmem
        rw [List.mem_singleton] at hnot hmem
        exact hnot (hquote hmem.symm).symm
      · simpa using hcontrol

/-- The raw text of a string ends at a quote. -/
lemma parseChars_spec {fuel : ℕ} (h : parseChars fuel text = some (content, rest)) :
    ∃ raw, text = raw ++ quote :: rest ∧ Denotes raw content := by
  -- one round of the parser reads the closing quote, an escape or one plain byte
  induction fuel generalizing text content with
  | zero => cases h
  | succ fuel ih =>
    match text with
    | [] => cases h
    | b :: text =>
      unfold parseChars at h
      split_ifs at h with hquote hcontrol hbackslash
      · obtain ⟨rfl, rfl⟩ := Prod.mk.inj (Option.some.inj h)
        exact ⟨[], by rw [hquote]; rfl, denotes_nil⟩
      · obtain ⟨⟨bytes, text₁⟩, hescape, h⟩ := Option.bind_eq_some_iff.mp h
        obtain ⟨⟨content₁, text₂⟩, hchars, h⟩ := Option.bind_eq_some_iff.mp h
        obtain ⟨rfl, rfl⟩ := Prod.mk.inj (Option.some.inj h)
        obtain ⟨raw, rfl, hraw⟩ := parseEscape_spec hescape
        obtain ⟨raw', rfl, hraw'⟩ := ih hchars
        exact ⟨backslash :: raw ++ raw', by rw [hbackslash]; simp, hraw.append hraw'⟩
      · obtain ⟨⟨content₁, text₂⟩, hchars, h⟩ := Option.bind_eq_some_iff.mp h
        obtain ⟨rfl, rfl⟩ := Prod.mk.inj (Option.some.inj h)
        obtain ⟨raw', rfl, hraw'⟩ := ih hchars
        exact ⟨[b] ++ raw', rfl,
          (denotes_plain (not_lt.mp hcontrol) hquote hbackslash).append hraw'⟩

/-- A string is its raw text, with a content that is UTF-8. -/
lemma parseString_spec (h : parseString text = some (content, rest)) :
    ∃ raw, text = raw ++ quote :: rest ∧ Denotes raw content ∧ Utf8.valid content = true := by
  unfold parseString at h
  obtain ⟨⟨content₁, rest₁⟩, hchars, h⟩ := Option.bind_eq_some_iff.mp h
  dsimp only at h
  split_ifs at h with hvalid
  obtain ⟨rfl, rfl⟩ := Prod.mk.inj (Option.some.inj h)
  obtain ⟨raw, hraw, hdenotes⟩ := parseChars_spec hchars
  exact ⟨raw, hraw, hdenotes, hvalid⟩

/-- A text that stands for itself in quotes. -/
structure Plain (content : Text) : Prop where
  control : ∀ b ∈ content, 0x20 ≤ b.toNat
  quote : quote ∉ content
  backslash : backslash ∉ content
  utf8 : Utf8.valid content = true

/-- The test for it. -/
def isPlain (content : Text) : Bool :=
  content.all (fun b => 0x20 ≤ b.toNat && b != Json.quote && b != Json.backslash) &&
    Utf8.valid content

/-- The test is right. -/
lemma isPlain_iff : isPlain content = true ↔ Plain content := by
  unfold isPlain
  simp only [Bool.and_eq_true, List.all_eq_true, decide_eq_true_iff, bne_iff_ne]
  constructor
  -- the test compares byte by byte
  · intro h
    exact ⟨fun b hb => (h.1 b hb).1.1, fun hb => (h.1 _ hb).1.2 rfl, fun hb => (h.1 _ hb).2 rfl,
      h.2⟩
  · intro h
    refine ⟨fun b hb => ⟨⟨h.control b hb, ?_⟩, ?_⟩, h.utf8⟩
    · rintro rfl
      exact h.quote hb
    · rintro rfl
      exact h.backslash hb

/-- Bytes that stand for themselves are read up to the quote behind them. -/
lemma parseChars_eq_some {fuel : ℕ} (hcontrol : ∀ b ∈ content, 0x20 ≤ b.toNat)
    (hquote : quote ∉ content) (hbackslash : backslash ∉ content) (hfuel : content.length < fuel) :
    parseChars fuel (content ++ quote :: rest) = some (content, rest) := by
  -- no test of the parser but the last one applies to a plain byte
  induction content generalizing fuel with
  | nil =>
    have hne : fuel ≠ 0 := by
      rw [List.length_nil] at hfuel
      omega
    obtain ⟨fuel, rfl⟩ := Nat.exists_eq_add_one_of_ne_zero hne
    rfl
  | cons b content ih =>
    rw [List.length_cons] at hfuel
    rw [List.mem_cons, not_or] at hquote hbackslash
    obtain ⟨hb, hcontrol⟩ := List.forall_mem_cons.mp hcontrol
    obtain ⟨fuel, rfl⟩ := Nat.exists_eq_add_one_of_ne_zero (show fuel ≠ 0 by omega)
    rw [List.cons_append, parseChars, if_neg (Ne.symm hquote.1), if_neg (not_lt.mpr hb),
      if_neg (Ne.symm hbackslash.1), ih hcontrol hquote.2 hbackslash.2 (by omega)]
    rfl

/-- A plain text is read as itself. -/
lemma parseString_eq_some (h : Plain content) :
    parseString (content ++ quote :: rest) = some (content, rest) := by
  unfold parseString
  rw [parseChars_eq_some h.control h.quote h.backslash (by simp), Option.bind_eq_bind,
    Option.bind_some]
  dsimp only
  rw [if_pos h.utf8]
  rfl

/-- A text up to its first quote, read as a string without quotes. -/
lemma denotes_of_parseString {tail : Text} (hraw : quote ∉ raw) (hcontent : quote ∉ content)
    (h : parseString (raw ++ quote :: tail) = some (content, rest)) :
    Denotes raw content ∧ Utf8.valid content = true ∧ tail = rest := by
  obtain ⟨raw', heq, hdenotes, hutf8⟩ := parseString_spec h
  -- both texts stop at their first quote
  have hlength := congrArg (List.idxOf quote) heq
  rw [List.idxOf_append_of_notMem hraw,
    List.idxOf_append_of_notMem (hdenotes.quote_notMem hcontent), List.idxOf_cons_self,
    List.idxOf_cons_self] at hlength
  obtain ⟨rfl, hrest⟩ := List.append_inj heq hlength
  exact ⟨hdenotes, hutf8, (List.cons.inj hrest).2⟩

end Json
