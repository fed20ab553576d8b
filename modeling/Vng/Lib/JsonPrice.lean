import Vng.Lib.JsonStrings

/-!
# What a JSON text is paid with

Every string in a value costs two quotes of its text, and a backslash for each quote or backslash
in it.
-/

namespace Json

variable {α β : Type} {text rest content : Text}

/-! ## What values are paid with -/

/-- A parser that takes at least `weight` of a text. -/
def Spends (p : Parser α) (weight : α → ℕ) : Prop :=
  ∀ text a rest, p text = some (a, rest) → weight a + tally rest ≤ tally text

/-- What a parser's result is wrapped in costs nothing. -/
lemma Spends.map {p : Parser α} {weight : α → ℕ} {weight' : β → ℕ} {f : α → β} {b : β}
    (hp : Spends p weight) (hweight : ∀ a, weight' (f a) = weight a)
    (h : (p text).map (fun r => (f r.1, r.2)) = some (b, rest)) :
    weight' b + tally rest ≤ tally text := by
  obtain ⟨⟨a, rest₁⟩, ha, hpair⟩ := Option.map_eq_some_iff.mp h
  obtain ⟨rfl, rfl⟩ := Prod.mk.inj hpair
  rw [hweight]
  exact hp _ _ _ ha

/-- The price of a string with its quotes. -/
def price (content : Text) : ℕ := 2 + 2 * marks content

mutual
/-- What the strings of a value cost, with the names of members. -/
def Value.weight : Value → ℕ
  | .null => 0
  | .bool _ => 0
  | .number _ => 0
  | .string content => price content
  | .array elements => elementsWeight elements
  | .object members => membersWeight members

def elementsWeight : List Value → ℕ
  | [] => 0
  | value :: elements => value.weight + elementsWeight elements

def membersWeight : List (Text × Value) → ℕ
  | [] => 0
  | (name, value) :: members => price name + value.weight + membersWeight members
end

/-- The weight of an array is the sum over its elements. -/
lemma elementsWeight_eq (elements : List Value) :
    elementsWeight elements = (elements.map Value.weight).sum := by
  induction elements with
  | nil => rfl
  | cons value elements ih => rw [elementsWeight, ih, List.map_cons, List.sum_cons]

/-- The weight of an object is the sum over its members, names included. -/
lemma membersWeight_eq (members : List (Text × Value)) :
    membersWeight members = (members.map fun m => price m.1 + m.2.weight).sum := by
  induction members with
  | nil => rfl
  | cons member members ih => rw [membersWeight, ih, List.map_cons, List.sum_cons]

/-- Skipping blanks raises nothing. -/
lemma tally_skipSpace (h : skipSpace text = rest) : tally rest ≤ tally text :=
  tally_le_of_suffix (h ▸ List.dropWhile_suffix isSpace)

/-- Reading one more byte raises nothing. -/
lemma tally_tail {b : BitVec 8} (h : skipSpace text = b :: rest) : tally rest ≤ tally text :=
  (tally_le_of_suffix (List.suffix_cons b rest)).trans (tally_skipSpace h)

/-- Digits are taken from the front. -/
lemma suffix_of_parseDigits {digits : Text} (h : parseDigits text = some (digits, rest)) :
    rest <:+ text := by
  unfold parseDigits at h
  split_ifs at h
  obtain ⟨-, rfl⟩ := Prod.mk.inj (Option.some.inj h)
  exact List.dropWhile_suffix _

/-- So is a fraction, if there is one. -/
lemma suffix_of_parseFraction {digits : Text} (h : parseFraction text = some (digits, rest)) :
    rest <:+ text := by
  unfold parseFraction at h
  split at h
  · obtain ⟨-, rfl⟩ := Prod.mk.inj (Option.some.inj h)
    exact List.suffix_rfl
  · next b text =>
    split_ifs at h
    · exact (suffix_of_parseDigits h).trans (List.suffix_cons b text)
    · obtain ⟨-, rfl⟩ := Prod.mk.inj (Option.some.inj h)
      exact List.suffix_rfl

lemma suffix_of_map_parseDigits {n : ℤ} (f : Text → ℤ)
    (h : (parseDigits text).map (fun r => (f r.1, r.2)) = some (n, rest)) :
    rest <:+ text := by
  obtain ⟨⟨digits, rest₁⟩, hdigits, hpair⟩ := Option.map_eq_some_iff.mp h
  obtain ⟨-, rfl⟩ := Prod.mk.inj hpair
  exact suffix_of_parseDigits hdigits

/-- So is an exponent, with its sign. -/
lemma suffix_of_parseExponent {n : ℤ} (h : parseExponent text = some (n, rest)) :
    rest <:+ text := by
  unfold parseExponent at h
  split at h
  · obtain ⟨-, rfl⟩ := Prod.mk.inj (Option.some.inj h)
    exact List.suffix_rfl
  · next b text =>
    split_ifs at h
    · split at h
      · cases h
      -- behind the letter comes a sign or a digit
      · next sign text =>
        have hsign : text <:+ b :: sign :: text :=
          (List.suffix_cons sign text).trans (List.suffix_cons b _)
        split_ifs at h
        · exact (suffix_of_map_parseDigits (fun d => -(Decimal.ofDigits d : ℤ)) h).trans hsign
        · exact (suffix_of_map_parseDigits (fun d => Decimal.ofDigits d) h).trans hsign
        · exact (suffix_of_map_parseDigits (fun d => Decimal.ofDigits d) h).trans
            (List.suffix_cons b _)
    · obtain ⟨-, rfl⟩ := Prod.mk.inj (Option.some.inj h)
      exact List.suffix_rfl

/-- All three parts of a number are. -/
lemma suffix_of_parseUnsigned {q : ℚ} (h : parseUnsigned text = some (q, rest)) :
    rest <:+ text := by
  unfold parseUnsigned at h
  obtain ⟨⟨digits, text₁⟩, hdigits, hrest⟩ := Option.bind_eq_some_iff.mp h
  dsimp only at hrest
  split_ifs at hrest
  obtain ⟨⟨fraction, text₂⟩, hfraction, hrest⟩ := Option.bind_eq_some_iff.mp hrest
  obtain ⟨⟨exponent, text₃⟩, hexponent, hrest⟩ := Option.bind_eq_some_iff.mp hrest
  obtain ⟨-, rfl⟩ := Prod.mk.inj (Option.some.inj hrest)
  exact (suffix_of_parseExponent hexponent).trans
    ((suffix_of_parseFraction hfraction).trans (suffix_of_parseDigits hdigits))

/-- A number is taken from the front, with its sign. -/
lemma suffix_of_parseNumber {q : ℚ} (h : parseNumber text = some (q, rest)) : rest <:+ text := by
  unfold parseNumber at h
  split at h
  · cases h
  · next b text =>
    split_ifs at h
    -- behind a minus sign
    · obtain ⟨⟨q₁, text₁⟩, hq, hpair⟩ := Option.map_eq_some_iff.mp h
      obtain ⟨-, rfl⟩ := Prod.mk.inj hpair
      exact (suffix_of_parseUnsigned hq).trans (List.suffix_cons b text)
    · exact suffix_of_parseUnsigned h

/-- A keyword costs nothing. -/
lemma parseKeyword_spec {value : Value} (h : parseKeyword text = some (value, rest)) :
    value.weight = 0 ∧ rest <:+ text := by
  unfold parseKeyword at h
  split_ifs at h
  all_goals
    obtain ⟨rfl, rfl⟩ := Prod.mk.inj (Option.some.inj h)
    exact ⟨rfl, List.drop_suffix _ _⟩

/-- The content and the closing quote; the opening one has been read. -/
lemma tally_parseString (h : parseString text = some (content, rest)) :
    2 * marks content + 1 + tally rest ≤ tally text := by
  obtain ⟨raw, rfl, hdenotes, -⟩ := parseString_spec h
  have hmarks := hdenotes.marks_le
  rw [tally_append, tally_quote_cons]
  omega

/-- A number costs nothing. -/
lemma spends_parseNumber : Spends parseNumber fun _ => 0 := by
  intro text q rest h
  rw [Nat.zero_add]
  exact tally_le_of_suffix (suffix_of_parseNumber h)

section Items

variable {item : Parser α} {close : BitVec 8} {weight : α → ℕ}

/-- A list of items takes what its items take. -/
lemma spends_parseItems (hitem : Spends item weight) (fuel : ℕ) :
    Spends (parseItems item close fuel) fun items => (items.map weight).sum := by
  intro text items rest h
  -- each round takes one item and the byte behind it
  induction fuel generalizing text items with
  | zero => cases h
  | succ fuel ih =>
    unfold parseItems at h
    obtain ⟨⟨a, text₁⟩, ha, hrest⟩ := Option.bind_eq_some_iff.mp h
    have hspent := hitem _ _ _ ha
    dsimp only at hrest
    split at hrest
    · cases hrest
    · next b text₂ hskip =>
      have htail := tally_tail hskip
      split_ifs at hrest
      · obtain ⟨rfl, rfl⟩ := Prod.mk.inj (Option.some.inj hrest)
        simp only [List.map_singleton, List.sum_singleton]
        omega
      · -- the comma costs nothing
        obtain ⟨⟨items₁, text₃⟩, hitems, hpair⟩ := Option.bind_eq_some_iff.mp hrest
        obtain ⟨rfl, rfl⟩ := Prod.mk.inj (Option.some.inj hpair)
        have hmore := ih _ _ hitems
        simp only [List.map_cons, List.sum_cons] at hmore ⊢
        omega

/-- So does a block, whose closing byte costs nothing. -/
lemma spends_parseBlock (hitem : Spends item weight) :
    Spends (parseBlock item close) fun items => (items.map weight).sum := by
  intro text items rest h
  unfold parseBlock at h
  split at h
  · cases h
  · next b text₁ hskip =>
    split_ifs at h
    · obtain ⟨rfl, rfl⟩ := Prod.mk.inj (Option.some.inj h)
      simpa using tally_tail hskip
    · exact spends_parseItems hitem _ _ _ _ h

/-- A member takes its name and its value; the opening quote of the name has been read. -/
lemma spends_parseNamed (hitem : Spends item weight) {member : Text × α}
    (h : parseNamed item text = some (member, rest)) :
    price member.1 + weight member.2 + tally rest ≤ tally text + 1 := by
  unfold parseNamed at h
  obtain ⟨⟨name, text₂⟩, hname, hrest⟩ := Option.bind_eq_some_iff.mp h
  dsimp only at hrest
  split at hrest
  · cases hrest
  · next c text₃ hskip =>
    split_ifs at hrest
    obtain ⟨⟨a, text₄⟩, ha, hpair⟩ := Option.bind_eq_some_iff.mp hrest
    obtain ⟨rfl, rfl⟩ := Prod.mk.inj (Option.some.inj hpair)
    have hstring := tally_parseString hname
    have hcolon := tally_tail hskip
    have hspent := hitem _ _ _ ha
    dsimp only
    unfold price
    omega

lemma spends_parseMember (hitem : Spends item weight) :
    Spends (parseMember item) fun member => price member.1 + weight member.2 := by
  intro text member rest h
  unfold parseMember at h
  split at h
  · cases h
  · next b text₁ hskip =>
    split_ifs at h with hquote
    have hopen := tally_skipSpace hskip
    rw [hquote, tally_quote_cons] at hopen
    have hspent := spends_parseNamed hitem h
    dsimp only
    omega

end Items

/-- A value costs what its strings cost. -/
lemma spends_parseValue (fuel : ℕ) : Spends (parseValue fuel) Value.weight := by
  -- the fuel counts how deep the value is
  induction fuel with
  | zero =>
    intro text value rest h
    cases h
  | succ fuel ih =>
    intro text value rest h
    unfold parseValue at h
    split at h
    · cases h
    · next b text₁ hskip =>
      have htail := tally_tail hskip
      split_ifs at h with hobject harray hstring
      -- an object, its names included
      · have hspent : value.weight + tally rest ≤ tally text₁ :=
          (spends_parseBlock (spends_parseMember ih)).map
            (fun members => by rw [Value.weight, membersWeight_eq]) h
        omega
      -- an array
      · have hspent : value.weight + tally rest ≤ tally text₁ :=
          (spends_parseBlock ih).map
            (fun elements => by rw [Value.weight, elementsWeight_eq]) h
        omega
      · -- the opening quote is in front of what `parseString` reads
        obtain ⟨⟨content, rest₁⟩, hcontent, hpair⟩ := Option.map_eq_some_iff.mp h
        obtain ⟨rfl, rfl⟩ := Prod.mk.inj hpair
        have hopen := tally_skipSpace hskip
        rw [hstring, tally_quote_cons] at hopen
        have hspent := tally_parseString hcontent
        rw [Value.weight, price]
        dsimp only
        omega
      -- a keyword or a number, without any string
      · have hall := tally_skipSpace hskip
        split at h
        · next result hkeyword =>
          obtain rfl := Option.some.inj h
          obtain ⟨hweight, hsuffix⟩ := parseKeyword_spec hkeyword
          have hspent := tally_le_of_suffix hsuffix
          omega
        · have hspent : value.weight + tally rest ≤ tally (b :: text₁) :=
            spends_parseNumber.map (fun q => by rw [Value.weight]) h
          omega

/-- **The price of strings.** A text that is parsed holds what the strings of its value cost. -/
lemma weight_le_of_parse {value : Value} (h : parse text = some value) :
    value.weight ≤ tally text := by
  unfold parse at h
  obtain ⟨⟨value₁, rest⟩, hvalue, hrest⟩ := Option.bind_eq_some_iff.mp h
  dsimp only at hrest
  split_ifs at hrest
  obtain rfl := Option.some.inj hrest
  -- what is left over is blank, and its tally is not needed
  have hspent := spends_parseValue _ _ _ _ hvalue
  omega

end Json
