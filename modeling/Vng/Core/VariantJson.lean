import Vng.Core.Variant
import Vng.Lib.JsonItems
import Vng.Lib.JsonPrice

/-!
# What `toJson` prints, read as JSON

`readable` says on which values, and with which indentation, `toJson` prints a text that a JSON
parser takes back to the value.
-/

namespace Vng
namespace Variant

open Json (Ends Skips comma parseValue quote tally)

/-- An induction over values, with the members of a map and the elements of a list. -/
theorem induct {P : Variant → Prop} (hmap : ∀ members, (∀ m ∈ members, P m.2) → P (.map members))
    (hlist : ∀ elements, (∀ v ∈ elements, P v) → P (.list elements))
    (hstring : ∀ value, P (.string value)) (hbool : ∀ value, P (.bool value))
    (hint : ∀ value, P (.int value)) (huint : ∀ value, P (.uint value))
    (hlong : ∀ value, P (.long value)) (hulong : ∀ value, P (.ulong value)) (v : Variant) : P v :=
  @Variant.rec P (fun members => ∀ m ∈ members, P m.2) (fun elements => ∀ v ∈ elements, P v)
    (fun m => P m.2) hmap hlist hstring hbool hint huint hlong hulong (by simp)
    (fun _ _ hm hmembers => List.forall_mem_cons.mpr ⟨hm, hmembers⟩) (by simp)
    (fun _ _ hv helements => List.forall_mem_cons.mpr ⟨hv, helements⟩) (fun _ _ h => h) v

/-! ## Values as JSON -/

mutual
/-- The JSON value that a variant stands for. -/
def denote : Variant → Json.Value
  | .map members => .object (membersDenote members)
  | .list elements => .array (elementsDenote elements)
  | .string value => .string value
  | .bool value => .bool value
  | .int value => .number value.toInt
  | .uint value => .number value.toNat
  | .long value => .number value.toInt
  | .ulong value => .number value.toNat

def membersDenote : List (List Byte × Variant) → List (List Byte × Json.Value)
  | [] => []
  | (key, value) :: members => (key, denote value) :: membersDenote members

def elementsDenote : List Variant → List Json.Value
  | [] => []
  | value :: elements => denote value :: elementsDenote elements
end

mutual
/-- The values that are printed as JSON: no strings, no container with exactly one member or
element, no members where keys get tabs, plain keys, and no unsigned number that `%ld` shows as
a negative one. -/
def readable (indents : ℤ) : Variant → Bool
  | .map members => tabsEnd indents && members.length ≠ 1 &&
      (members.length = 0 || indents < 0) && membersReadable indents members
  | .list elements => tabsEnd indents && elements.length ≠ 1 && elementsReadable indents elements
  | .string _ => false
  | .bool _ | .int _ | .uint _ | .long _ => true
  | .ulong value => value.toNat < 2 ^ 31

def membersReadable (indents : ℤ) : List (List Byte × Variant) → Bool
  | [] => true
  | (key, value) :: members =>
    Json.isPlain key && readable (indents + 1) value && membersReadable indents members

def elementsReadable (indents : ℤ) : List Variant → Bool
  | [] => true
  | value :: elements => readable indents value && elementsReadable indents elements
end

mutual
/-- What the strings of the value cost in JSON beyond what `toJson` prints. -/
def excess : Variant → ℕ
  | .map members => membersExcess members
  | .list elements => elementsExcess elements
  | .string value => 2 + value.count quote
  | .bool _ | .int _ | .uint _ | .long _ | .ulong _ => 0

def membersExcess : List (List Byte × Variant) → ℕ
  | [] => 0
  | (key, value) :: members => key.count quote + excess value + membersExcess members

def elementsExcess : List Variant → ℕ
  | [] => 0
  | value :: elements => excess value + elementsExcess elements
end

variable {indents : ℤ} {members : List (List Byte × Variant)} {elements : List Variant}

/-- The members of a map, one by one. -/
lemma membersDenote_eq (members : List (List Byte × Variant)) :
    membersDenote members = members.map fun m => (m.1, m.2.denote) := by
  induction members with
  | nil => rfl
  | cons m members ih => rw [membersDenote, ih, List.map_cons]

lemma elementsDenote_eq (elements : List Variant) :
    elementsDenote elements = elements.map denote := by
  induction elements with
  | nil => rfl
  | cons v elements ih => rw [elementsDenote, ih, List.map_cons]

/-- Every key is plain and every member readable, one indentation deeper. -/
lemma membersReadable_iff : membersReadable indents members = true ↔
    ∀ m ∈ members, Json.Plain m.1 ∧ readable (indents + 1) m.2 = true := by
  induction members with
  | nil => simp [membersReadable]
  | cons m members ih =>
    rw [membersReadable, Bool.and_eq_true, Bool.and_eq_true, ih, Json.isPlain_iff,
      List.forall_mem_cons]

/-- Every element is readable, at the indentation of the list. -/
lemma elementsReadable_iff : elementsReadable indents elements = true ↔
    ∀ v ∈ elements, readable indents v = true := by
  induction elements with
  | nil => simp [elementsReadable]
  | cons v elements ih => rw [elementsReadable, Bool.and_eq_true, ih, List.forall_mem_cons]

/-- The members of a map end one indentation deeper. -/
lemma membersEnd_iff : membersEnd indents members = true ↔
    ∀ m ∈ members, ends (indents + 1) m.2 = true := by
  induction members with
  | nil => simp [membersEnd]
  | cons m members ih => rw [membersEnd, Bool.and_eq_true, ih, List.forall_mem_cons]

/-- The elements of a list end at its indentation. -/
lemma elementsEnd_iff : elementsEnd indents elements = true ↔
    ∀ v ∈ elements, ends indents v = true := by
  induction elements with
  | nil => simp [elementsEnd]
  | cons v elements ih => rw [elementsEnd, Bool.and_eq_true, ih, List.forall_mem_cons]

/-- No excess: no quotes in the keys, and none in what the members print. -/
lemma membersExcess_eq_zero_iff : membersExcess members = 0 ↔
    ∀ m ∈ members, quote ∉ m.1 ∧ excess m.2 = 0 := by
  induction members with
  | nil => simp [membersExcess]
  | cons m members ih =>
    rw [membersExcess, List.forall_mem_cons, ← ih, ← List.count_eq_zero]
    omega

/-- No excess in any element. -/
lemma elementsExcess_eq_zero_iff : elementsExcess elements = 0 ↔ ∀ v ∈ elements, excess v = 0 := by
  induction elements with
  | nil => simp [elementsExcess]
  | cons v elements ih =>
    rw [elementsExcess, List.forall_mem_cons, ← ih]
    omega

/-! ## The printed text -/

/-- What the loop over a map prints for one member, without the comma. -/
def memberText (indents : ℤ) (member : List Byte × Variant) : List Byte :=
  [0x0A, quote] ++ tabs indents ++ member.1 ++ [quote, 0x3A, 0x20] ++
    toJson (indents + 1) member.2

/-- The loop over a map: each member with a comma behind it. -/
lemma membersToJson_eq (members : List (List Byte × Variant)) :
    membersToJson indents members = members.flatMap fun m => memberText indents m ++ [comma] := by
  induction members with
  | nil => rfl
  | cons m members ih => rw [membersToJson, ih, List.flatMap_cons, memberText]

/-- The loop over a list. -/
lemma elementsToJson_eq (elements : List Variant) :
    elementsToJson indents elements = elements.flatMap fun v => toJson indents v ++ [comma] := by
  induction elements with
  | nil => rfl
  | cons v elements ih => rw [elementsToJson, ih, List.flatMap_cons]

/-- What is left of a loop over items: a comma behind an only one, but not behind the last of
several. -/
def line {β : Type} (print : β → List Byte) : List β → List Byte
  | [] => []
  | [x] => print x ++ [comma]
  | x :: y :: xs => [comma].intercalate ((x :: y :: xs).map print)

/-- The erased last byte is the last comma. -/
lemma erase_eq_line {β : Type} (print : β → List Byte) (front : List Byte) (xs : List β) :
    (if xs.length > 1 then (front ++ xs.flatMap fun x => print x ++ [comma]).dropLast
      else front ++ xs.flatMap fun x => print x ++ [comma]) = front ++ line print xs := by
  match xs with
  | [] => rfl
  | [x] => simp [line]
  | x :: y :: ys =>
    have hne : (x :: y :: ys).flatMap (fun x => print x ++ [comma]) ≠ [] := by simp
    rw [if_pos (by simp), List.dropLast_append_of_ne_nil hne,
      Json.dropLast_flatMap (List.cons_ne_nil x _), line]

/-- A map: newline and tabs on both sides of the line of its members. -/
lemma toJson_map (indents : ℤ) (members : List (List Byte × Variant)) :
    toJson indents (.map members) = 0x7B :: ((0x0A :: tabs indents) ++
      (line (memberText indents) members ++ ((0x0A :: tabs indents) ++ [0x7D]))) := by
  rw [toJson, membersToJson_eq, erase_eq_line]
  simp

/-- A list: the tabs in front of the closing bracket have no newline. -/
lemma toJson_list (indents : ℤ) (elements : List Variant) :
    toJson indents (.list elements) = 0x5B :: ((0x0A :: tabs indents) ++
      (line (toJson indents) elements ++ (List.replicate indents.toNat 0x09 ++ [0x5D]))) := by
  rw [toJson, elementsToJson_eq, erase_eq_line]
  simp

/-- Tabs are blanks. -/
lemma isSpace_tabs {k : ℕ} : ∀ b ∈ List.replicate k (0x09 : Byte), Json.isSpace b = true := by
  intro b hb
  rw [List.eq_of_mem_replicate hb]
  decide

/-- So is the newline in front of them. -/
lemma isSpace_newline (indents : ℤ) : ∀ b ∈ 0x0A :: tabs indents, Json.isSpace b = true :=
  List.forall_mem_cons.mpr ⟨by decide, isSpace_tabs⟩

section Blocks

variable {α β : Type} {item : Json.Parser α} {close : Byte} {space space' rest rest' : List Byte}
  {xs : List β}

/-- A block that is not left with a comma before its end is read. -/
lemma parseBlock_line (print : β → List Byte) (value : β → α) (hclose : Json.Closes close)
    (hitem : Skips item)
    (hspace : ∀ b ∈ space, Json.isSpace b = true) (hspace' : ∀ b ∈ space', Json.isSpace b = true)
    (hstart : ∀ x ∈ xs, ∀ rest, ∃ b text, Json.skipSpace (print x ++ rest) = b :: text ∧ b ≠ close)
    (hread : ∀ x ∈ xs, ∀ rest, Ends rest → item (print x ++ rest) = some (value x, rest))
    (hlength : xs.length ≠ 1) :
    Json.parseBlock item close (space ++ (line print xs ++ (space' ++ close :: rest))) =
      some (xs.map value, rest) := by
  match xs with
  -- nothing but blanks between the brackets
  | [] =>
    rw [line, List.nil_append, ← List.append_assoc, Json.parseBlock_nil hclose]
    · rfl
    · intro b hb
      exact (List.mem_append.mp hb).elim (hspace b) (hspace' b)
  | [x] => exact absurd rfl hlength
  -- several items: the last comma has been erased
  | x :: y :: ys =>
    obtain ⟨b, text, hb, hne⟩ := hstart x List.mem_cons_self
      (comma :: [comma].intercalate ((y :: ys).map print) ++ (space' ++ close :: rest))
    have hcount := Json.length_le_intercalate print (x :: y :: ys)
    have hskip : Json.skipSpace (space ++ ([comma].intercalate ((x :: y :: ys).map print) ++
        (space' ++ close :: rest))) = b :: text := by
      rw [Json.skipSpace_append hspace, ← hb]
      simp
    rw [line, Json.parseBlock_of_ne hskip hne, Json.parseItems_space hitem hspace,
      Json.parseItems_eq_some hclose hspace' hread (List.cons_ne_nil x _)]
    simp only [List.length_append, List.length_cons] at hcount ⊢
    omega

/-- A block that is read as the values of its items has no comma before its end, and is read item
by item. -/
lemma of_parseBlock_line (print : β → List Byte) (value : β → α) {P : β → Prop}
    (hclose : Json.Closes close) (hitem : Skips item)
    (hspace : ∀ b ∈ space, Json.isSpace b = true) (hspace' : ∀ b ∈ space', Json.isSpace b = true)
    (hread : ∀ x ∈ xs, ∀ rest rest', Ends rest →
      item (print x ++ rest) = some (value x, rest') → P x ∧ rest' = rest)
    (h : Json.parseBlock item close (space ++ (line print xs ++ (space' ++ close :: rest))) =
      some (xs.map value, rest')) : xs.length ≠ 1 ∧ (∀ x ∈ xs, P x) ∧ rest' = rest := by
  match xs with
  | [] =>
    rw [line, List.nil_append, ← List.append_assoc, Json.parseBlock_nil hclose] at h
    · exact ⟨Nat.zero_ne_one, by simp, (Prod.mk.inj (Option.some.inj h)).2.symm⟩
    · intro b hb
      exact (List.mem_append.mp hb).elim (hspace b) (hspace' b)
  | [x] =>
    -- the comma behind the only item asks for another one
    have hitems := Json.parseItems_of_parseBlock (List.cons_ne_nil _ _) h
    rw [Json.parseItems_space hitem hspace, line, List.append_assoc] at hitems
    exact absurd hitems (Json.ne_singleton_of_comma hclose
      (fun rest rest' hends hx => (hread x List.mem_cons_self rest rest' hends hx).2) _ _ _)
  | x :: y :: ys =>
    have hitems := Json.parseItems_of_parseBlock (List.cons_ne_nil _ _) h
    rw [Json.parseItems_space hitem hspace, line] at hitems
    exact ⟨by simp, Json.forall_of_parseItems hclose hspace' hread (List.cons_ne_nil x _) hitems⟩

end Blocks

/-! ## Strings are not paid for -/

/-- A byte that belongs to no string. -/
lemma tally_outside {b : Byte} (h : tally [b] = 0) (text : List Byte) :
    tally (b :: text) = tally text := by
  rw [Json.tally_cons, h, Nat.zero_add]

/-- Commas pay for nothing. -/
lemma tally_line {β : Type} (print : β → List Byte) (xs : List β) :
    tally (line print xs) = (xs.map fun x => tally (print x)).sum := by
  match xs with
  | [] => rfl
  | [x] => rw [line, Json.tally_append, List.map_singleton, List.sum_singleton]; rfl
  | x :: y :: ys =>
    rw [line]
    -- the induction is over all items, without the shape of the line
    generalize x :: y :: ys = xs
    induction xs with
    | nil => rfl
    | cons x xs ih =>
      cases xs with
      | nil => simp
      | cons y ys =>
        rw [List.map_cons, List.map_cons, Json.intercalate_cons, ← List.map_cons, Json.tally_append,
          tally_outside rfl, ih, List.map_cons, List.sum_cons, List.map_cons, List.sum_cons,
          List.map_cons, List.sum_cons]

/-- A member has the two quotes of its key, and what its key and its value hold. -/
lemma tally_memberText (indents : ℤ) (m : List Byte × Variant) :
    tally (memberText indents m) = 2 + tally m.1 + tally (toJson (indents + 1) m.2) := by
  have htabs : tally (tabs indents) = 0 := Json.tally_space isSpace_tabs
  unfold memberText
  simp only [Json.tally_append, htabs, show tally [0x0A, quote] = 1 from rfl,
    show tally [quote, 0x3A, 0x20] = 1 from rfl]
  omega

/-- If no member pays for its strings, the map does not. -/
lemma sum_members_le (h : ∀ m ∈ members,
      tally (toJson (indents + 1) m.2) + excess m.2 ≤ m.2.denote.weight) :
    (members.map fun m => tally (memberText indents m)).sum + membersExcess members ≤
      Json.membersWeight (membersDenote members) := by
  induction members with
  | nil => exact le_rfl
  | cons m members ih =>
    obtain ⟨hm, hmembers⟩ := List.forall_mem_cons.mp h
    have htail := ih hmembers
    rw [List.map_cons, List.sum_cons, tally_memberText, membersExcess, membersDenote,
      Json.membersWeight]
    unfold Json.price Json.marks
    unfold tally at hm htail ⊢
    omega

/-- If no element pays for its strings, the list does not. -/
lemma sum_elements_le (h : ∀ v ∈ elements, tally (toJson indents v) + excess v ≤ v.denote.weight) :
    (elements.map fun v => tally (toJson indents v)).sum + elementsExcess elements ≤
      Json.elementsWeight (elementsDenote elements) := by
  induction elements with
  | nil => exact le_rfl
  | cons v elements ih =>
    obtain ⟨hv, helements⟩ := List.forall_mem_cons.mp h
    have htail := ih helements
    rw [List.map_cons, List.sum_cons, elementsExcess, elementsDenote, Json.elementsWeight]
    omega

/-- The text holds too few quotes for the strings of the value, by what they cost in excess. -/
lemma tally_toJson_le (v : Variant) (indents : ℤ) :
    tally (toJson indents v) + excess v ≤ v.denote.weight := by
  induction v using induct generalizing indents with
  -- a map adds newlines, tabs and braces to its members
  | hmap members ih =>
    have hsum := sum_members_le fun m hm => ih m hm (indents + 1)
    have htabs : tally (0x0A :: tabs indents) = 0 := Json.tally_space (isSpace_newline indents)
    rw [toJson_map, denote, Json.Value.weight, excess, tally_outside rfl]
    simp only [Json.tally_append, htabs, tally_line, show tally [0x7D] = 0 from rfl]
    omega
  | hlist elements ih =>
    have hsum := sum_elements_le fun v hv => ih v hv indents
    have htabs : tally (0x0A :: tabs indents) = 0 := Json.tally_space (isSpace_newline indents)
    have hend : tally (List.replicate indents.toNat (0x09 : Byte)) = 0 :=
      Json.tally_space isSpace_tabs
    rw [toJson_list, denote, Json.Value.weight, excess, tally_outside rfl]
    simp only [Json.tally_append, htabs, hend, tally_line, show tally [0x5D] = 0 from rfl]
    omega
  -- a string is printed without its two quotes, and its own quotes without a backslash
  | hstring value =>
    rw [toJson, denote, excess, Json.Value.weight]
    unfold Json.price Json.marks tally
    omega
  | hbool value => cases value <;> exact Nat.zero_le _
  | hint value => rw [toJson, Json.tally_integer]; exact Nat.zero_le _
  | huint value => rw [toJson, Json.tally_natural]; exact Nat.zero_le _
  | hlong value => rw [toJson, Json.tally_integer]; exact Nat.zero_le _
  | hulong value => rw [toJson, Json.tally_integer]; exact Nat.zero_le _

/-! ## Reading the text -/

/-- An item is no longer than the line it is in. -/
lemma length_le_line {β : Type} (print : β → List Byte) {xs : List β} {x : β} (hx : x ∈ xs) :
    (print x).length ≤ (line print xs).length := by
  match xs with
  | [] => cases hx
  | [y] =>
    rw [List.mem_singleton.mp hx, line, List.length_append]
    exact Nat.le_add_right _ _
  | y :: z :: ys =>
    rw [line]
    exact Json.length_le_intercalate_of_mem print hx

/-- A member begins with a newline and the quote of its key. -/
lemma memberText_append (indents : ℤ) (m : List Byte × Variant) (rest : List Byte) :
    memberText indents m ++ rest = [0x0A] ++ quote :: ((tabs indents ++ m.1) ++
      quote :: 0x3A :: 0x20 :: (toJson (indents + 1) m.2 ++ rest)) := by
  simp [memberText]

/-- Below the indentation 0 there are no tabs. -/
lemma tabs_of_neg {indents : ℤ} (h : indents < 0) : tabs indents = [] := by
  unfold tabs
  rw [show (indents + 1).toNat = 0 by omega, List.replicate_zero]

/-- What is printed for a readable value begins neither with a blank nor with the end of a list. -/
lemma head_toJson {v : Variant} (h : readable indents v = true) :
    ∃ b text, toJson indents v = b :: text ∧ Json.isSpace b = false ∧ b ≠ 0x5D := by
  have hinteger : ∀ n : ℤ, ∃ b text, Decimal.integer n = b :: text ∧ Json.isSpace b = false ∧
      b ≠ 0x5D := by
    intro n
    obtain ⟨b, digits, heq, hspace, hne⟩ := Json.head_integer n
    exact ⟨b, digits, heq, hspace, hne _ (by decide)⟩
  match v with
  | .map members => exact ⟨_, _, toJson_map indents members, by decide, by decide⟩
  | .list elements => exact ⟨_, _, toJson_list indents elements, by decide, by decide⟩
  -- a string is not readable at all
  | .string _ => exact absurd h (by simp [readable])
  | .bool true => exact ⟨_, _, rfl, by decide, by decide⟩
  | .bool false => exact ⟨_, _, rfl, by decide, by decide⟩
  | .int value => exact hinteger value.toInt
  | .uint value =>
    have hnat := hinteger value.toNat
    rwa [Decimal.integer_natCast] at hnat
  | .long value => exact hinteger value.toInt
  | .ulong value => exact hinteger value.toInt

/-- `%ld` shows an unsigned number as it is below `2^31`. -/
lemma toInt_eq_toNat_iff {value : BitVec 32} :
    value.toInt = (value.toNat : ℤ) ↔ value.toNat < 2 ^ 31 := by
  have hlt := value.isLt
  rw [BitVec.toInt_eq_toNat_cond]
  split_ifs <;> omega

/-- Any fuel will do for a number. -/
lemma parseValue_integer (n : ℤ) {fuel : ℕ} {rest : List Byte} (hfuel : 0 < fuel)
    (hrest : Ends rest) :
    parseValue fuel (Decimal.integer n ++ rest) = some (.number n, rest) := by
  obtain ⟨fuel, rfl⟩ := Nat.exists_eq_add_one_of_ne_zero (show fuel ≠ 0 by omega)
  exact Json.parseValue_integer fuel n hrest

/-- A map is read as a block of members. -/
lemma parseValue_map (fuel : ℕ) (indents : ℤ) (members : List (List Byte × Variant))
    (rest : List Byte) : parseValue (fuel + 1) (toJson indents (.map members) ++ rest) =
      (Json.parseBlock (Json.parseMember (parseValue fuel)) 0x7D ((0x0A :: tabs indents) ++
        (line (memberText indents) members ++ ((0x0A :: tabs indents) ++ 0x7D :: rest)))).map
          fun r => (.object r.1, r.2) := by
  rw [toJson_map, List.cons_append, Json.parseValue_object]
  simp only [List.append_assoc, List.cons_append, List.nil_append]

/-- A list is read as a block of values. -/
lemma parseValue_list (fuel : ℕ) (indents : ℤ) (elements : List Variant) (rest : List Byte) :
    parseValue (fuel + 1) (toJson indents (.list elements) ++ rest) =
      (Json.parseBlock (parseValue fuel) 0x5D ((0x0A :: tabs indents) ++
        (line (toJson indents) elements ++
          (List.replicate indents.toNat 0x09 ++ 0x5D :: rest)))).map
            fun r => (.array r.1, r.2) := by
  rw [toJson_list, List.cons_append, Json.parseValue_array]
  simp only [List.append_assoc, List.cons_append, List.nil_append]

/-- A member is shorter than its map, so there is fuel for it. -/
lemma length_map_lt (indents : ℤ) {m : List Byte × Variant} (hm : m ∈ members) :
    (toJson (indents + 1) m.2).length < (toJson indents (.map members)).length := by
  have hline := length_le_line (memberText indents) hm
  have hmember : (toJson (indents + 1) m.2).length ≤ (memberText indents m).length := by
    unfold memberText
    rw [List.length_append]
    exact Nat.le_add_left _ _
  rw [toJson_map]
  simp only [List.length_cons, List.length_append]
  omega

/-- An element is shorter than its list. -/
lemma length_list_lt (indents : ℤ) {v : Variant} (hv : v ∈ elements) :
    (toJson indents v).length < (toJson indents (.list elements)).length := by
  have hline := length_le_line (toJson indents) hv
  rw [toJson_list]
  simp only [List.length_cons, List.length_append]
  omega

/-- What is readable is read. -/
lemma parseValue_toJson (v : Variant) (indents : ℤ) {fuel : ℕ} {rest : List Byte}
    (h : readable indents v = true) (hfuel : (toJson indents v).length < fuel) (hrest : Ends rest) :
    parseValue fuel (toJson indents v ++ rest) = some (v.denote, rest) := by
  induction v using induct generalizing indents fuel rest with
  | hmap members ih =>
    obtain ⟨fuel, rfl⟩ := Nat.exists_eq_add_one_of_ne_zero (show fuel ≠ 0 by omega)
    simp only [readable, Bool.and_eq_true, decide_eq_true_iff, Bool.or_eq_true,
      membersReadable_iff] at h
    obtain ⟨⟨⟨-, hlength⟩, htabs⟩, hmembers⟩ := h
    have hread : ∀ m ∈ members, ∀ rest, Ends rest →
        Json.parseMember (parseValue fuel) (memberText indents m ++ rest) =
          some ((m.1, m.2.denote), rest) := by
      intro m hm rest hrest
      -- with a member there are no tabs in front of its key
      have hneg : indents < 0 :=
        htabs.resolve_left fun hzero => by simp [List.length_eq_zero_iff.mp hzero] at hm
      have hlt := length_map_lt indents hm
      rw [memberText_append, tabs_of_neg hneg, List.nil_append,
        Json.skips_parseMember [0x0A] _ (by decide),
        Json.parseMember_eq (hmembers m hm).1 (Json.skips_parseValue fuel),
        ih m hm (indents + 1) (hmembers m hm).2 (by omega) hrest]
      rfl
    rw [parseValue_map, parseBlock_line (memberText indents) (fun m => (m.1, m.2.denote))
      Json.closes_brace Json.skips_parseMember (isSpace_newline indents) (isSpace_newline indents)
      ?_ hread hlength, denote, membersDenote_eq]
    · rfl
    · intro m hm rest
      rw [memberText_append, Json.skipSpace_append (by decide), Json.skipSpace_cons (by decide)]
      exact ⟨_, _, rfl, by decide⟩
  | hlist elements ih =>
    obtain ⟨fuel, rfl⟩ := Nat.exists_eq_add_one_of_ne_zero (show fuel ≠ 0 by omega)
    simp only [readable, Bool.and_eq_true, decide_eq_true_iff, elementsReadable_iff] at h
    obtain ⟨⟨-, hlength⟩, helements⟩ := h
    -- the elements are at the same indentation
    have hread : ∀ v ∈ elements, ∀ rest, Ends rest →
        parseValue fuel (toJson indents v ++ rest) = some (v.denote, rest) := by
      intro v hv rest hrest
      have hlt := length_list_lt indents hv
      exact ih v hv indents (helements v hv) (by omega) hrest
    rw [parseValue_list, parseBlock_line (toJson indents) denote Json.closes_bracket
      (Json.skips_parseValue fuel) (isSpace_newline indents) isSpace_tabs ?_ hread hlength, denote,
      elementsDenote_eq]
    · rfl
    · intro v hv rest
      obtain ⟨b, text, heq, hspace, hne⟩ := head_toJson (helements v hv)
      rw [heq, List.cons_append, Json.skipSpace_cons hspace]
      exact ⟨_, _, rfl, hne⟩
  | hstring value => cases h
  | hbool value =>
    obtain ⟨fuel, rfl⟩ := Nat.exists_eq_add_one_of_ne_zero (show fuel ≠ 0 by omega)
    cases value
    · exact Json.parseValue_false fuel rest
    · exact Json.parseValue_true fuel rest
  | hint value => exact parseValue_integer _ (by omega) hrest
  | huint value =>
    have hnat := parseValue_integer (value.toNat : ℤ) (show 0 < fuel by omega) hrest
    rw [Decimal.integer_natCast] at hnat
    exact hnat
  | hlong value => exact parseValue_integer _ (by omega) hrest
  -- `%ld` prints the number as it is, because it is small
  | hulong value =>
    have hsmall : value.toInt = value.toNat := toInt_eq_toNat_iff.mpr (by simpa [readable] using h)
    rw [toJson, parseValue_integer value.toInt (by omega) hrest, denote, hsmall]
    rfl

/-- A number that is read from the text of an integer is that integer. -/
lemma integer_of_parseValue {n n' : ℤ} {fuel : ℕ} {rest rest' : List Byte} (hrest : Ends rest)
    (h : parseValue fuel (Decimal.integer n ++ rest) = some (.number n', rest')) :
    n = n' ∧ rest' = rest := by
  cases fuel with
  | zero => cases h
  | succ fuel =>
    rw [Json.parseValue_integer fuel n hrest] at h
    obtain ⟨hnumber, hrest⟩ := Prod.mk.inj (Option.some.inj h)
    exact ⟨Int.cast_injective (Json.Value.number.inj hnumber), hrest.symm⟩

/-- A member whose key holds no quotes is read if there are no tabs in front of the key, and the key
is plain. -/
lemma readable_of_parseMember {fuel : ℕ} {m : List Byte × Variant} {rest rest' : List Byte}
    (hquote : quote ∉ m.1)
    (h : Json.parseMember (parseValue fuel) (memberText indents m ++ rest) =
      some ((m.1, m.2.denote), rest')) :
    (indents < 0 ∧ Json.Plain m.1) ∧
      parseValue fuel (toJson (indents + 1) m.2 ++ rest) = some (m.2.denote, rest') := by
  have hraw : quote ∉ tabs indents ++ m.1 := by
    rw [List.mem_append, not_or]
    exact ⟨fun htab => absurd (isSpace_tabs quote htab) (by decide), hquote⟩
  rw [memberText_append, Json.skips_parseMember [0x0A] _ (by decide)] at h
  obtain ⟨hdenotes, hutf8, hvalue⟩ :=
    Json.denotes_of_parseMember hraw hquote (Json.skips_parseValue fuel) h
  -- a tab is a control character, which no string holds
  have hneg : indents < 0 := by
    by_contra hnot
    have htab : (0x09 : Byte) ∈ tabs indents ++ m.1 :=
      List.mem_append_left _ (List.mem_replicate.mpr ⟨by omega, rfl⟩)
    exact absurd (hdenotes.control _ htab) (by decide)
  rw [tabs_of_neg hneg, List.nil_append] at hdenotes
  exact ⟨⟨hneg, hdenotes.control, hquote, (hdenotes.plain rfl).2, hutf8⟩, hvalue⟩

/-- What is read, and has no strings to pay for, is readable. -/
lemma readable_of_parseValue (v : Variant) (indents : ℤ) {fuel : ℕ} {rest rest' : List Byte}
    (hexcess : excess v = 0) (hends : ends indents v = true) (hrest : Ends rest)
    (h : parseValue fuel (toJson indents v ++ rest) = some (v.denote, rest')) :
    readable indents v = true ∧ rest' = rest := by
  induction v using induct generalizing indents fuel rest rest' with
  | hmap members ih =>
    cases fuel with
    | zero => cases h
    | succ fuel =>
      rw [excess, membersExcess_eq_zero_iff] at hexcess
      rw [ends, Bool.and_eq_true, membersEnd_iff] at hends
      rw [parseValue_map, denote, membersDenote_eq] at h
      obtain ⟨⟨items, rest₁⟩, hblock, hpair⟩ := Option.map_eq_some_iff.mp h
      obtain ⟨hitems, rfl⟩ := Prod.mk.inj hpair
      obtain rfl := Json.Value.object.inj hitems
      -- each member is read on its own, so its key is plain and its value readable
      have hmember : ∀ m ∈ members, ∀ rest rest', Ends rest →
          Json.parseMember (parseValue fuel) (memberText indents m ++ rest) =
            some ((m.1, m.2.denote), rest') →
          ((indents < 0 ∧ Json.Plain m.1) ∧ readable (indents + 1) m.2 = true) ∧ rest' = rest := by
        intro m hm rest rest' hends' hread
        obtain ⟨hkey, hvalue⟩ := readable_of_parseMember (hexcess m hm).1 hread
        obtain ⟨hreadable, heq⟩ :=
          ih m hm (indents + 1) (hexcess m hm).2 (hends.2 m hm) hends' hvalue
        exact ⟨⟨hkey, hreadable⟩, heq⟩
      obtain ⟨hlength, hall, hrest₁⟩ := of_parseBlock_line (memberText indents)
        (fun m => (m.1, m.2.denote)) Json.closes_brace Json.skips_parseMember
        (isSpace_newline indents) (isSpace_newline indents) hmember hblock
      refine ⟨?_, hrest₁⟩
      simp only [readable, Bool.and_eq_true, decide_eq_true_iff, Bool.or_eq_true,
        membersReadable_iff]
      refine ⟨⟨⟨hends.1, hlength⟩, ?_⟩, fun m hm => ⟨(hall m hm).1.2, (hall m hm).2⟩⟩
      -- any member shows that there are no tabs
      cases members with
      | nil => exact .inl rfl
      | cons m members => exact .inr (hall m List.mem_cons_self).1.1
  | hlist elements ih =>
    cases fuel with
    | zero => cases h
    | succ fuel =>
      rw [excess, elementsExcess_eq_zero_iff] at hexcess
      rw [ends, Bool.and_eq_true, elementsEnd_iff] at hends
      rw [parseValue_list, denote, elementsDenote_eq] at h
      obtain ⟨⟨items, rest₁⟩, hblock, hpair⟩ := Option.map_eq_some_iff.mp h
      obtain ⟨hitems, rfl⟩ := Prod.mk.inj hpair
      obtain rfl := Json.Value.array.inj hitems
      obtain ⟨hlength, hall, hrest₁⟩ := of_parseBlock_line (toJson indents) denote
        Json.closes_bracket (Json.skips_parseValue fuel)
        (isSpace_newline indents) isSpace_tabs
        (fun v hv _ _ hends' hread => ih v hv indents (hexcess v hv) (hends.2 v hv) hends' hread)
        hblock
      refine ⟨?_, hrest₁⟩
      simp only [readable, Bool.and_eq_true, decide_eq_true_iff, elementsReadable_iff]
      exact ⟨⟨hends.1, hlength⟩, hall⟩
  -- a string has an excess of two quotes
  | hstring value =>
    rw [excess] at hexcess
    omega
  | hbool value =>
    cases fuel with
    | zero => cases h
    | succ fuel =>
      have hread : parseValue (fuel + 1) (toJson indents (.bool value) ++ rest) =
          some (.bool value, rest) := by
        cases value
        · exact Json.parseValue_false fuel rest
        · exact Json.parseValue_true fuel rest
      rw [hread] at h
      exact ⟨rfl, (Prod.mk.inj (Option.some.inj h)).2.symm⟩
  | hint value => exact ⟨rfl, (integer_of_parseValue hrest h).2⟩
  | huint value =>
    rw [toJson, ← Decimal.integer_natCast] at h
    exact ⟨rfl, (integer_of_parseValue hrest h).2⟩
  | hlong value => exact ⟨rfl, (integer_of_parseValue hrest h).2⟩
  | hulong value =>
    -- the number that was read is the one that `%ld` has shown
    obtain ⟨hsame, heq⟩ := integer_of_parseValue hrest h
    refine ⟨?_, heq⟩
    rw [readable, decide_eq_true_iff]
    exact toInt_eq_toNat_iff.mp hsame

/-- What is readable is printed: its loops over tabs end. -/
lemma ends_of_readable (v : Variant) (indents : ℤ) (h : readable indents v = true) :
    ends indents v = true := by
  induction v using induct generalizing indents with
  | hmap members ih =>
    simp only [readable, Bool.and_eq_true, membersReadable_iff] at h
    rw [ends, Bool.and_eq_true, membersEnd_iff]
    exact ⟨h.1.1.1, fun m hm => ih m hm (indents + 1) (h.2 m hm).2⟩
  | hlist elements ih =>
    simp only [readable, Bool.and_eq_true, elementsReadable_iff] at h
    rw [ends, Bool.and_eq_true, elementsEnd_iff]
    exact ⟨h.1.1, fun v hv => ih v hv indents (h.2 v hv)⟩
  | hstring value => rfl
  | hbool value => rfl
  | hint value => rfl
  | huint value => rfl
  | hlong value => rfl
  | hulong value => rfl

/-- The text is JSON for the value exactly if the value is readable. -/
lemma parse_toJson_iff (indents : ℤ) (v : Variant) (hends : ends indents v = true) :
    Json.parse (toJson indents v) = some v.denote ↔ readable indents v = true := by
  have hnil : Ends [] := fun b hb => by cases hb
  constructor
  · intro h
    -- the text has no bytes to pay for a string with
    have hexcess : excess v = 0 := by
      have hspent := Json.weight_le_of_parse h
      have htext := tally_toJson_le v indents
      omega
    unfold Json.parse at h
    obtain ⟨⟨value, rest⟩, hvalue, hrest⟩ := Option.bind_eq_some_iff.mp h
    dsimp only at hrest
    split_ifs at hrest
    obtain rfl := Option.some.inj hrest
    rw [← List.append_nil (toJson indents v)] at hvalue
    exact (readable_of_parseValue v indents hexcess hends hnil hvalue).1
  · intro h
    have hread := parseValue_toJson v indents h (Nat.lt_succ_self _) hnil
    rw [List.append_nil] at hread
    unfold Json.parse
    rw [hread]
    rfl

/-- **Round trip.** The text of a value is there, and JSON for that value, exactly if the value is
readable at this indentation. -/
theorem roundTrip_iff (indents : BitVec 32) (v : Variant) :
    (∃ text, printed indents v = .ok text ∧ Json.parse text = some v.denote) ↔
      readable indents.toInt v = true := by
  constructor
  · rintro ⟨text, hprinted, hparse⟩
    unfold printed at hprinted
    split_ifs at hprinted with hends
    obtain rfl := Except.ok.inj hprinted
    exact (parse_toJson_iff indents.toInt v hends).mp hparse
  · intro h
    -- the text is printed, since the loops end
    have hends := ends_of_readable v indents.toInt h
    exact ⟨_, if_pos hends, (parse_toJson_iff indents.toInt v hends).mpr h⟩

lemma not_parse_toJson {v : Variant} {text : List Byte} (hends : ends indents v = true)
    (h : readable indents v = false) (htext : toJson indents v = text) :
    Json.parse text ≠ some v.denote := by
  rw [← htext]
  intro hparse
  rw [(parse_toJson_iff indents v hends).mp hparse] at h
  cases h

/-- A list of one number, a list of two strings, a map of two members with the default indentation,
and an unsigned number of `2^31` in a list. -/
theorem roundTrip_lost :
    ¬ (∃ text, printed 0 (.list [.int 5]) = .ok text ∧
        Json.parse text = some (denote (.list [.int 5]))) ∧
      ¬ (∃ text, printed 0 (.list [.string [0x61], .string [0x62]]) = .ok text ∧
        Json.parse text = some (denote (.list [.string [0x61], .string [0x62]]))) ∧
      ¬ (∃ text, printed 0 (.map [([0x61], .int 5), ([0x62], .int 7)]) = .ok text ∧
        Json.parse text = some (denote (.map [([0x61], .int 5), ([0x62], .int 7)]))) ∧
      ¬ ∃ text, printed 0 (.list [.int 5, .ulong 0x80000000]) = .ok text ∧
        Json.parse text = some (denote (.list [.int 5, .ulong 0x80000000])) := by
  refine ⟨?_, ?_, ?_, ?_⟩
  all_goals
    rintro ⟨text, hprinted, hparse⟩
    exact not_parse_toJson (show ends 0 _ = true from rfl) (by decide) (Except.ok.inj hprinted)
      hparse

end Variant
end Vng
