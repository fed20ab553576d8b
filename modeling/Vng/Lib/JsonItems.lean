import Vng.Lib.JsonStrings

/-!
# Printed values, parsed

Numbers, lists of items with commas between them, and values that start with a keyword or a
bracket.
-/

namespace Json

variable {α β : Type} {text rest raw content : Text}

/-! ## Numbers -/

/-- No digit, point or exponent goes on in front. -/
def Ends (rest : Text) : Prop :=
  ∀ b ∈ rest.head?, Decimal.isDigit b = false ∧ b ≠ 0x2E ∧ b ≠ 0x65 ∧ b ≠ 0x45

/-- Digits are read up to what ends them. -/
lemma parseDigits_append {digits : Text} (hdigits : ∀ b ∈ digits, Decimal.isDigit b = true)
    (hne : digits ≠ []) (hrest : Ends rest) :
    parseDigits (digits ++ rest) = some (digits, rest) := by
  -- the first byte behind the digits is none
  have hstop : rest.takeWhile Decimal.isDigit = [] ∧ rest.dropWhile Decimal.isDigit = rest := by
    cases rest with
    | nil => exact ⟨rfl, rfl⟩
    | cons b rest =>
      have hb : ¬ Decimal.isDigit b = true := by rw [(hrest b rfl).1]; decide
      exact ⟨List.takeWhile_cons_of_neg hb, List.dropWhile_cons_of_neg hb⟩
  unfold parseDigits
  rw [List.takeWhile_append_of_pos hdigits, List.dropWhile_append_of_pos hdigits, hstop.1, hstop.2,
    List.append_nil, if_neg hne]

/-- There is no fraction. -/
lemma parseFraction_of_ends (h : Ends rest) : parseFraction rest = some ([], rest) := by
  cases rest with
  | nil => rfl
  | cons b rest => exact if_neg (h b rfl).2.1

/-- There is no exponent. -/
lemma parseExponent_of_ends (h : Ends rest) : parseExponent rest = some (0, rest) := by
  cases rest with
  | nil => rfl
  | cons b rest => exact if_neg (not_or.mpr (h b rfl).2.2)

/-- A natural number is read from its digits. -/
lemma parseUnsigned_natural (n : ℕ) (h : Ends rest) :
    parseUnsigned (Decimal.natural n ++ rest) = some ((n : ℚ), rest) := by
  have hdigits := parseDigits_append (fun _ => Decimal.isDigit_of_mem_natural (n := n))
    Decimal.natural_ne_nil h
  -- no zero in front of other digits
  have hzero : ¬ ((Decimal.natural n).head? = some 0x30 ∧ 1 < (Decimal.natural n).length) := by
    rintro ⟨hhead, hlength⟩
    by_cases hn : n = 0
    · rw [hn] at hlength
      exact absurd hlength (by decide)
    · obtain ⟨b, digits, heq, hne⟩ := Decimal.head_natural hn
      rw [heq] at hhead
      exact hne (Option.some.inj hhead)
  unfold parseUnsigned
  rw [hdigits, Option.bind_eq_bind, Option.bind_some]
  dsimp only
  -- neither a fraction nor an exponent changes the digits
  rw [if_neg hzero, parseFraction_of_ends h, Option.bind_some]
  dsimp only
  rw [parseExponent_of_ends h, Option.bind_eq_bind, Option.bind_some]
  dsimp only
  rw [List.append_nil, Decimal.ofDigits_natural, List.length_nil, Nat.cast_zero, sub_zero,
    zpow_zero, mul_one]
  rfl

/-- An integer begins with a digit or with a minus sign. -/
lemma head_integer (n : ℤ) :
    ∃ b digits, Decimal.integer n = b :: digits ∧ isSpace b = false ∧
      ∀ c : BitVec 8, c.toNat < 0x2D ∨ 0x39 < c.toNat → b ≠ c := by
  -- the digits and the minus sign lie between `-` and `9`
  have hrange : ∃ b digits, Decimal.integer n = b :: digits ∧ 0x2D ≤ b.toNat ∧ b.toNat ≤ 0x39 := by
    unfold Decimal.integer
    split_ifs with hneg
    · exact ⟨_, _, rfl, by decide, by decide⟩
    · obtain ⟨b, digits, heq⟩ :=
        List.exists_cons_of_ne_nil (Decimal.natural_ne_nil (n := n.natAbs))
      have hdigit := Decimal.isDigit_of_mem_natural (n := n.natAbs) (heq ▸ List.mem_cons_self)
      unfold Decimal.isDigit at hdigit
      rw [Bool.and_eq_true, decide_eq_true_iff, decide_eq_true_iff] at hdigit
      exact ⟨b, digits, heq, by omega, by omega⟩
  obtain ⟨b, digits, heq, hlow, hhigh⟩ := hrange
  have hne : ∀ c : BitVec 8, c.toNat < 0x2D ∨ 0x39 < c.toNat → b ≠ c := by
    rintro c hc rfl
    omega
  refine ⟨b, digits, heq, ?_, hne⟩
  unfold isSpace
  simp only [Bool.or_eq_false_iff, decide_eq_false_iff_not]
  exact ⟨⟨⟨hne _ (by decide), hne _ (by decide)⟩, hne _ (by decide)⟩, hne _ (by decide)⟩

/-- The minus sign comes first. -/
lemma parseNumber_cons (b : BitVec 8) (text : Text) : parseNumber (b :: text) =
    if b = 0x2D then (parseUnsigned text).map fun r => (-r.1, r.2) else parseUnsigned (b :: text) :=
  rfl

/-- An integer is read from its text. -/
lemma parseNumber_integer (n : ℤ) (h : Ends rest) :
    parseNumber (Decimal.integer n ++ rest) = some ((n : ℚ), rest) := by
  have habs := parseUnsigned_natural n.natAbs h
  unfold Decimal.integer
  split_ifs with hneg
  · have hcast : -((n.natAbs : ℕ) : ℚ) = (n : ℚ) := by
      rw [← Int.cast_natCast, ← Int.cast_neg, Int.ofNat_natAbs_of_nonpos hneg.le, neg_neg]
    rw [List.cons_append, parseNumber_cons, if_pos rfl, habs, Option.map_some, hcast]
  · have hcast : ((n.natAbs : ℕ) : ℚ) = (n : ℚ) := by
      rw [← Int.cast_natCast, Int.natAbs_of_nonneg (not_lt.mp hneg)]
    obtain ⟨b, digits, heq⟩ := List.exists_cons_of_ne_nil (Decimal.natural_ne_nil (n := n.natAbs))
    have hdigit := Decimal.isDigit_of_mem_natural (n := n.natAbs) (heq ▸ List.mem_cons_self)
    -- the first byte is a digit, so there is no sign
    have hminus : b ≠ 0x2D := by
      rintro rfl
      exact absurd hdigit (by decide)
    rw [heq, List.cons_append] at habs ⊢
    rw [parseNumber_cons, if_neg hminus, habs, hcast]

/-! ## Items -/

/-- Blanks in front are skipped. -/
lemma skipSpace_append {space : Text} (h : ∀ b ∈ space, isSpace b = true) (text : Text) :
    skipSpace (space ++ text) = skipSpace text := List.dropWhile_append_of_pos h

/-- Nothing else is. -/
lemma skipSpace_cons {b : BitVec 8} (h : isSpace b = false) (text : Text) :
    skipSpace (b :: text) = b :: text := List.dropWhile_cons_of_neg (by rw [h]; decide)

/-- What closes a list of items. -/
structure Closes (close : BitVec 8) : Prop where
  visible : isSpace close = false
  ne_comma : close ≠ comma
  ends : ∀ rest, Ends (close :: rest)

/-- One byte decides whether a number ends. -/
lemma ends_cons {b : BitVec 8}
    (h : Decimal.isDigit b = false ∧ b ≠ 0x2E ∧ b ≠ 0x65 ∧ b ≠ 0x45) (rest : Text) :
    Ends (b :: rest) := by
  intro c hc
  rwa [← Option.some.inj hc]

/-- A comma ends a number. -/
lemma ends_comma (rest : Text) : Ends (comma :: rest) := ends_cons (by decide) rest

/-- A closing bracket closes an array. -/
lemma closes_bracket : Closes 0x5D := ⟨by decide, by decide, ends_cons (by decide)⟩

/-- A closing brace closes an object. -/
lemma closes_brace : Closes 0x7D := ⟨by decide, by decide, ends_cons (by decide)⟩

/-- So do blanks, if what is behind them does. -/
lemma ends_space {space : Text} (hspace : ∀ b ∈ space, isSpace b = true) (hrest : Ends rest) :
    Ends (space ++ rest) := by
  cases space with
  | nil => exact hrest
  | cons b space =>
    refine ends_cons ?_ _
    have hb := hspace b List.mem_cons_self
    unfold isSpace at hb
    simp only [Bool.or_eq_true, decide_eq_true_iff] at hb
    rcases hb with ((rfl | rfl) | rfl) | rfl <;> decide

lemma intercalate_singleton (text : Text) : [comma].intercalate [text] = text :=
  List.append_nil text

/-- A comma stands behind each item that is not the last one. -/
lemma intercalate_cons (text text' : Text) (texts : List Text) :
    [comma].intercalate (text :: text' :: texts) =
      text ++ comma :: [comma].intercalate (text' :: texts) := rfl

/-- There are commas for all items but one, so the text is long enough as fuel. -/
lemma length_le_intercalate (print : β → Text) (xs : List β) :
    xs.length ≤ ([comma].intercalate (xs.map print)).length + 1 := by
  induction xs with
  | nil => exact Nat.zero_le _
  | cons x xs ih =>
    cases xs with
    | nil => simp
    | cons y ys =>
      rw [List.map_cons, List.map_cons, intercalate_cons, ← List.map_cons]
      simp only [List.length_append, List.length_cons] at ih ⊢
      omega

/-- An item is no longer than the list it is in. -/
lemma length_le_intercalate_of_mem (print : β → Text) {xs : List β} {x : β} (hx : x ∈ xs) :
    (print x).length ≤ ([comma].intercalate (xs.map print)).length := by
  induction xs with
  | nil => cases hx
  | cons y ys ih =>
    cases ys with
    | nil =>
      rw [List.mem_singleton.mp hx]
      simp
    | cons z zs =>
      rw [List.map_cons, List.map_cons, intercalate_cons, ← List.map_cons, List.length_append,
        List.length_cons]
      rcases List.mem_cons.mp hx with rfl | hx
      · omega
      · have hle := ih hx
        omega

/-- A line of items with commas between them, the last comma taken away. -/
lemma dropLast_flatMap {print : β → Text} {xs : List β} (h : xs ≠ []) :
    (xs.flatMap fun x => print x ++ [comma]).dropLast = [comma].intercalate (xs.map print) := by
  induction xs with
  | nil => exact absurd rfl h
  | cons x xs ih =>
    cases xs with
    | nil => simp [List.intercalate]
    | cons y ys =>
      -- the last byte is the last one of the items behind the first
      have hne : (y :: ys).flatMap (fun x => print x ++ [comma]) ≠ [] := by simp
      rw [List.flatMap_cons, List.dropLast_append_of_ne_nil hne, ih (List.cons_ne_nil y ys),
        List.append_assoc]
      rfl

section Items

variable {item : Parser α} {close : BitVec 8} {print : β → Text} {value : β → α} {space : Text}
  {xs : List β}

/-- The last item, with blanks and the closing byte behind it. -/
lemma parseItems_last {a : α} {text : Text} (hclose : Closes close)
    (hspace : ∀ b ∈ space, isSpace b = true) (h : item text = some (a, space ++ close :: rest))
    (fuel : ℕ) : parseItems item close (fuel + 1) text = some ([a], rest) := by
  unfold parseItems
  rw [h, Option.bind_eq_bind, Option.bind_some]
  dsimp only
  rw [skipSpace_append hspace, skipSpace_cons hclose.visible]
  dsimp only
  rw [if_pos rfl]
  rfl

/-- An item with a comma behind it, and the items behind the comma. -/
lemma parseItems_comma {a : α} {text : Text} (hclose : Closes close)
    (h : item text = some (a, comma :: rest)) (fuel : ℕ) :
    parseItems item close (fuel + 1) text =
      (parseItems item close fuel rest).map fun r => (a :: r.1, r.2) := by
  conv_lhs => unfold parseItems
  rw [h, Option.bind_eq_bind, Option.bind_some]
  dsimp only
  rw [skipSpace_cons (by decide)]
  dsimp only
  rw [if_neg hclose.ne_comma.symm, if_pos rfl]
  cases parseItems item close fuel rest with
  | none => rfl
  | some r => rfl

/-- The first item comes from the front of the text, and there is one. -/
lemma exists_of_parseItems {items : List α} {fuel : ℕ}
    (h : parseItems item close fuel text = some (items, rest)) :
    ∃ k a items' text', fuel = k + 1 ∧ items = a :: items' ∧ item text = some (a, text') := by
  cases fuel with
  | zero => cases h
  | succ fuel =>
    unfold parseItems at h
    obtain ⟨⟨a, text₁⟩, ha, hrest⟩ := Option.bind_eq_some_iff.mp h
    dsimp only at hrest
    split at hrest
    · cases hrest
    -- the item is the last one, or a comma leads to others
    · split_ifs at hrest
      · obtain ⟨rfl, -⟩ := Prod.mk.inj (Option.some.inj hrest)
        exact ⟨fuel, a, [], text₁, rfl, rfl, ha⟩
      · obtain ⟨⟨items₁, text₃⟩, -, hpair⟩ := Option.bind_eq_some_iff.mp hrest
        obtain ⟨rfl, -⟩ := Prod.mk.inj (Option.some.inj hpair)
        exact ⟨fuel, a, items₁, text₁, rfl, rfl, ha⟩

/-- A list of items is read as the list of their values. -/
lemma parseItems_eq_some (hclose : Closes close) (hspace : ∀ b ∈ space, isSpace b = true)
    (hitem : ∀ x ∈ xs, ∀ rest, Ends rest → item (print x ++ rest) = some (value x, rest))
    (hne : xs ≠ []) {fuel : ℕ} (hfuel : xs.length ≤ fuel) (rest : Text) :
    parseItems item close fuel ([comma].intercalate (xs.map print) ++ (space ++ close :: rest)) =
      some (xs.map value, rest) := by
  -- the induction is on the items; the last one ends at `close` and the others at a comma
  induction xs generalizing fuel with
  | nil => exact absurd rfl hne
  | cons x xs ih =>
    rw [List.length_cons] at hfuel
    obtain ⟨fuel, rfl⟩ := Nat.exists_eq_add_one_of_ne_zero (show fuel ≠ 0 by omega)
    obtain ⟨hx, hxs⟩ := List.forall_mem_cons.mp hitem
    cases xs with
    | nil =>
      have hlast := hx _ (ends_space hspace (hclose.ends rest))
      rw [List.map_singleton, intercalate_singleton, parseItems_last hclose hspace hlast]
      rfl
    | cons y ys =>
      have htail := ih hxs (List.cons_ne_nil y ys) (show (y :: ys).length ≤ fuel by omega)
      rw [List.map_cons, List.map_cons, intercalate_cons, List.append_assoc, List.cons_append,
        parseItems_comma hclose (hx _ (ends_comma _)), ← List.map_cons, htail]
      rfl

/-- A list of items that is read as their values is read item by item. -/
lemma forall_of_parseItems {P : β → Prop} (hclose : Closes close)
    (hspace : ∀ b ∈ space, isSpace b = true)
    (hitem : ∀ x ∈ xs, ∀ rest rest', Ends rest →
      item (print x ++ rest) = some (value x, rest') → P x ∧ rest' = rest)
    (hne : xs ≠ []) {fuel : ℕ} {rest rest' : Text}
    (h : parseItems item close fuel
      ([comma].intercalate (xs.map print) ++ (space ++ close :: rest)) =
        some (xs.map value, rest')) : (∀ x ∈ xs, P x) ∧ rest' = rest := by
  induction xs generalizing fuel with
  | nil => exact absurd rfl hne
  | cons x xs ih =>
    obtain ⟨hx, hxs⟩ := List.forall_mem_cons.mp hitem
    obtain ⟨k, a, items, text', rfl, hitems, hfirst⟩ := exists_of_parseItems h
    rw [List.map_cons] at hitems
    obtain ⟨rfl, -⟩ := List.cons.inj hitems
    cases xs with
    | nil =>
      rw [List.map_singleton, intercalate_singleton] at h hfirst
      obtain ⟨hP, rfl⟩ := hx _ _ (ends_space hspace (hclose.ends rest)) hfirst
      rw [parseItems_last hclose hspace hfirst] at h
      exact ⟨by simpa using hP, (Prod.mk.inj (Option.some.inj h)).2.symm⟩
    | cons y ys =>
      -- the comma ends the first item, and the others are a list of their own
      rw [List.map_cons, List.map_cons, intercalate_cons, List.append_assoc, List.cons_append]
        at h hfirst
      obtain ⟨hP, rfl⟩ := hx _ _ (ends_comma _) hfirst
      rw [parseItems_comma hclose hfirst, ← List.map_cons] at h
      obtain ⟨⟨items₁, text₁⟩, htail, hpair⟩ := Option.map_eq_some_iff.mp h
      obtain ⟨hitems₁, rfl⟩ := Prod.mk.inj hpair
      obtain rfl := (List.cons.inj hitems₁).2
      obtain ⟨hall, hrest⟩ := ih hxs (List.cons_ne_nil y ys) htail
      exact ⟨List.forall_mem_cons.mpr ⟨hP, hall⟩, hrest⟩

/-- One item with a comma behind it is not read as one item. -/
lemma ne_singleton_of_comma {x : β} (hclose : Closes close)
    (hitem : ∀ rest rest', Ends rest →
      item (print x ++ rest) = some (value x, rest') → rest' = rest) (fuel : ℕ) (text rest : Text) :
    parseItems item close fuel (print x ++ comma :: text) ≠ some ([value x], rest) := by
  intro h
  obtain ⟨k, a, items, text', rfl, hitems, hfirst⟩ := exists_of_parseItems h
  obtain ⟨rfl, -⟩ := List.cons.inj hitems
  obtain rfl := hitem _ _ (ends_comma text) hfirst
  rw [parseItems_comma hclose hfirst] at h
  obtain ⟨⟨items₁, text₁⟩, htail, hpair⟩ := Option.map_eq_some_iff.mp h
  obtain ⟨hitems₁, -⟩ := Prod.mk.inj hpair
  obtain ⟨-, b, items₂, -, -, rfl, -⟩ := exists_of_parseItems htail
  exact List.cons_ne_nil b items₂ (List.cons.inj hitems₁).2

/-- A block with nothing but blanks in it. -/
lemma parseBlock_nil (hclose : Closes close) (hspace : ∀ b ∈ space, isSpace b = true)
    (rest : Text) : parseBlock item close (space ++ close :: rest) = some ([], rest) := by
  unfold parseBlock
  rw [skipSpace_append hspace, skipSpace_cons hclose.visible]
  dsimp only
  rw [if_pos rfl]

/-- A block that does not close at once is a list of items. -/
lemma parseBlock_of_ne {b : BitVec 8} (h : skipSpace text = b :: rest) (hne : b ≠ close) :
    parseBlock item close text = parseItems item close text.length text := by
  unfold parseBlock
  rw [h]
  dsimp only
  rw [if_neg hne]

/-- A block with items is read as a list of them. -/
lemma parseItems_of_parseBlock {items : List α} (hne : items ≠ [])
    (h : parseBlock item close text = some (items, rest)) :
    parseItems item close text.length text = some (items, rest) := by
  unfold parseBlock at h
  split at h
  · cases h
  · split_ifs at h
    · exact absurd (Prod.mk.inj (Option.some.inj h)).1.symm hne
    · exact h

/-- Space in front of what the parser reads makes no difference. -/
def Skips (p : Parser α) : Prop :=
  ∀ space text, (∀ b ∈ space, isSpace b = true) → p (space ++ text) = p text

/-- Blanks in front of the first item. -/
lemma parseItems_space (hitem : Skips item) (hspace : ∀ b ∈ space, isSpace b = true) (fuel : ℕ)
    (text : Text) :
    parseItems item close fuel (space ++ text) = parseItems item close fuel text := by
  cases fuel with
  | zero => rfl
  | succ fuel =>
    unfold parseItems
    rw [hitem space text hspace]

/-- Blanks in front of a name. -/
lemma skips_parseMember : Skips (parseMember item) := by
  intro space text hspace
  unfold parseMember
  rw [skipSpace_append hspace]

lemma parseMember_quote (text : Text) :
    parseMember item (quote :: text) = parseNamed item text := by
  unfold parseMember
  rw [skipSpace_cons (by decide)]
  dsimp only
  rw [if_pos rfl]

/-- A plain name, a colon and a blank in front of a value. -/
lemma parseMember_eq {name : Text} (hname : Plain name) (hitem : Skips item) (text : Text) :
    parseMember item (quote :: (name ++ quote :: 0x3A :: 0x20 :: text)) =
      (item text).map fun r => ((name, r.1), r.2) := by
  rw [parseMember_quote]
  unfold parseNamed
  rw [parseString_eq_some hname, Option.bind_eq_bind, Option.bind_some]
  dsimp only
  rw [skipSpace_cons (by decide)]
  dsimp only
  rw [if_pos rfl, show 0x20 :: text = [0x20] ++ text from rfl, hitem _ text (by decide)]
  cases item text with
  | none => rfl
  | some r => rfl

/-- A name without quotes is read from its own raw text. -/
lemma denotes_of_parseMember {name : Text} {a : α} (hraw : quote ∉ raw) (hname : quote ∉ name)
    (hitem : Skips item)
    (h : parseMember item (quote :: (raw ++ quote :: 0x3A :: 0x20 :: text)) =
      some ((name, a), rest)) :
    Denotes raw name ∧ Utf8.valid name = true ∧ item text = some (a, rest) := by
  rw [parseMember_quote] at h
  unfold parseNamed at h
  obtain ⟨⟨name₁, text₁⟩, hstring, hrest⟩ := Option.bind_eq_some_iff.mp h
  dsimp only at hrest
  split at hrest
  · cases hrest
  · next b text₂ hskip =>
    split_ifs at hrest
    obtain ⟨⟨a₁, text₃⟩, ha, hpair⟩ := Option.bind_eq_some_iff.mp hrest
    obtain ⟨hmember, rfl⟩ := Prod.mk.inj (Option.some.inj hpair)
    obtain ⟨rfl, rfl⟩ := Prod.mk.inj hmember
    obtain ⟨hdenotes, hutf8, rfl⟩ := denotes_of_parseString hraw hname hstring
    rw [skipSpace_cons (by decide)] at hskip
    obtain rfl := (List.cons.inj hskip).2
    rw [show 0x20 :: text = [0x20] ++ text from rfl, hitem _ text (by decide)] at ha
    exact ⟨hdenotes, hutf8, ha⟩

end Items

/-! ## Values -/

/-- Blanks in front of a value. -/
lemma skips_parseValue (fuel : ℕ) : Skips (parseValue fuel) := by
  intro space text hspace
  cases fuel with
  | zero => rfl
  | succ fuel =>
    unfold parseValue
    rw [skipSpace_append hspace]

lemma parseValue_array (fuel : ℕ) (text : Text) : parseValue (fuel + 1) (0x5B :: text) =
    (parseBlock (parseValue fuel) 0x5D text).map fun r => (.array r.1, r.2) := rfl

lemma parseValue_object (fuel : ℕ) (text : Text) : parseValue (fuel + 1) (0x7B :: text) =
    (parseBlock (parseMember (parseValue fuel)) 0x7D text).map fun r => (.object r.1, r.2) := rfl

lemma parseValue_true (fuel : ℕ) (rest : Text) :
    parseValue (fuel + 1) ([0x74, 0x72, 0x75, 0x65] ++ rest) = some (.bool true, rest) := by
  rfl

lemma parseValue_false (fuel : ℕ) (rest : Text) :
    parseValue (fuel + 1) ([0x66, 0x61, 0x6C, 0x73, 0x65] ++ rest) = some (.bool false, rest) := by
  rfl

/-- An integer is a value: no keyword and no bracket begins like it. -/
lemma parseValue_integer (fuel : ℕ) (n : ℤ) (h : Ends rest) :
    parseValue (fuel + 1) (Decimal.integer n ++ rest) = some (.number n, rest) := by
  have hnumber := parseNumber_integer n h
  obtain ⟨b, digits, heq, hspace, hne⟩ := head_integer n
  rw [heq, List.cons_append] at hnumber ⊢
  have hword : ∀ (c : BitVec 8) (word : Text), c.toNat < 0x2D ∨ 0x39 < c.toNat →
      ¬ c :: word <+: b :: (digits ++ rest) := by
    intro c word hc h
    exact hne c hc (List.cons_prefix_cons.mp h).1.symm
  -- the keywords begin with letters
  have hkeyword : parseKeyword (b :: (digits ++ rest)) = none := by
    unfold parseKeyword
    rw [if_neg (hword _ _ (by decide)), if_neg (hword _ _ (by decide)),
      if_neg (hword _ _ (by decide))]
  unfold parseValue
  rw [skipSpace_cons hspace]
  dsimp only
  rw [if_neg (hne _ (by decide)), if_neg (hne _ (by decide)), if_neg (hne _ (by decide)), hkeyword]
  dsimp only
  rw [hnumber]
  rfl

end Json
