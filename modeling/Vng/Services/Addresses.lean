import Vng.Core.Setting
import Vng.Lib.HexText
import Vng.Services.Cloud

/-!
# Addresses and card ids in settings

`toAddress` of `light/button`, `toId` of `access/reader` and `toBLEAddressId` of the cloud
processor are copies of one parser for groups of two digits. All of them have a `toHex` that knows
the digit `a` and not `b` to `f`. The button and the reader build their allow-lists with it, and
skip what it does not read.
-/

namespace Vng
namespace Services

open HexText (Groups upper groups_map_upper groups_without groups_print)
open Memory (Checked ok_bind loadAt loadAt_eq_ok store)

/-- The loop of `toAddress` and `toId`, `fuel` more rounds of it. -/
def toBytesFrom (n : ℕ) (string : List Byte) :
    (fuel index position : ℕ) → (bytes : Vector Byte n) → Checked (Option (Vector Byte n))
  | 0, _, _, _ => .error .diverges
  | fuel + 1, index, position, bytes =>
    if index < string.length then do
      let character ← loadAt string index
      match toHex character with
      | none => return none
      | some first =>
        let character ← loadAt string (index + 1)
        match toHex character with
        | none => return none
        | some second =>
          let bytes ← store bytes position ((first <<< 4) + second)
          if position < n - 1 then
            let character ← loadAt string (index + 2)
            if character ≠ 0x3A then return none
            else toBytesFrom n string fuel (index + 3) (position + 1) bytes
          else toBytesFrom n string fuel (index + 3) (position + 1) bytes
    else return if position = n then some bytes else none

/-- The parser of `n` groups in a string of `length` characters, into the bytes of the caller. -/
def toBytes (n length : ℕ) (string : List Byte) (bytes : Vector Byte n) :
    Checked (Option (Vector Byte n)) :=
  if string.length ≠ length then return none
  else toBytesFrom n string (string.length + 1) 0 0 bytes

/-- `toAddress` of `light/button`. -/
def Button.toAddress (string : List Byte) (address : Vector Byte 6) :
    Checked (Option (Vector Byte 6)) := toBytes 6 17 string address

/-- `toId` of `access/reader`. -/
def Reader.toId (string : List Byte) (address : Vector Byte NFC_ID_SIZE) :
    Checked (Option (Vector Byte NFC_ID_SIZE)) := toBytes NFC_ID_SIZE 20 string address

lemma toBLEAddressIdFrom_eq (string : List Byte) (fuel index position : ℕ) (address : Address) :
    toBLEAddressIdFrom string fuel index position address =
      toBytesFrom BLE_ADDRESS_SIZE string fuel index position address := by
  induction fuel generalizing index position address with
  | zero => rfl
  | succ fuel ih =>
    have hrest : toBLEAddressIdFrom string fuel = toBytesFrom BLE_ADDRESS_SIZE string fuel := by
      funext index position address
      exact ih index position address
    unfold toBLEAddressIdFrom toBytesFrom
    exact hrest ▸ rfl

/-- The parser of the cloud processor is the same one. -/
lemma toBLEAddressId_eq (string : List Byte) :
    toBLEAddressId string = toBytes BLE_ADDRESS_SIZE 17 string (Vector.replicate _ 0) := by
  unfold toBLEAddressId toBytes
  rw [toBLEAddressIdFrom_eq]

/-! ## The digits -/

/-- A digit that `toHex` does not know. -/
def Lost (character : Byte) : Prop := 0x62 ≤ character.toNat ∧ character.toNat ≤ 0x66

instance : DecidablePred Lost := fun _ => inferInstanceAs (Decidable (_ ∧ _))

/-- `toHex` reads the digits of either case but `b` to `f`. -/
lemma toHex_eq (character : Byte) :
    toHex character = if Lost character then none else HexText.value character := by
  have hcases : ∀ c : Byte, toHex c = if Lost c then none else HexText.value c := by decide
  exact hcases character

/-! ## One pass over the string -/

variable {n : ℕ} {string : List Byte}

lemma getElem?_of_drop {i : ℕ} {c : Byte} {rest : List Byte} (h : string.drop i = c :: rest) :
    string[i]? = some c := by
  have hhead := congrArg (fun rest => rest[0]?) h
  simpa using hhead

/-- A round over two digits. -/
lemma toBytesFrom_digits {fuel index position : ℕ} {bytes : Vector Byte n} {c d x y : Byte}
    {rest : List Byte} (hdrop : string.drop index = c :: d :: rest) (hx : toHex c = some x)
    (hy : toHex d = some y) (hposition : position < n) :
    toBytesFrom n string (fuel + 1) index position bytes =
      (let bytes := bytes.set position (HexText.byte x y) hposition
      if position < n - 1 then do
        let character ← loadAt string (index + 2)
        if character ≠ 0x3A then return none
        else toBytesFrom n string fuel (index + 3) (position + 1) bytes
      else toBytesFrom n string fuel (index + 3) (position + 1) bytes) := by
  have hnext : string.drop (index + 1) = d :: rest := by
    rw [← List.drop_drop, hdrop, List.drop_one, List.tail_cons]
  have hlt : index < string.length := by
    by_contra hout
    rw [List.drop_eq_nil_of_le (not_lt.mp hout)] at hdrop
    cases hdrop
  rw [toBytesFrom, if_pos hlt, loadAt_eq_ok (getElem?_of_drop hdrop), ok_bind, hx]
  dsimp only
  rw [loadAt_eq_ok (getElem?_of_drop hnext), ok_bind, hy]
  dsimp only
  rw [store, dif_pos hposition, ok_bind]
  rfl

/-- A round that finds something else than a digit. -/
lemma toBytesFrom_bad {fuel index position : ℕ} {bytes : Vector Byte n} {c d : Byte}
    {rest : List Byte} (hdrop : string.drop index = c :: d :: rest)
    (hbad : toHex c = none ∨ toHex d = none) :
    toBytesFrom n string (fuel + 1) index position bytes = .ok none := by
  have hnext : string.drop (index + 1) = d :: rest := by
    rw [← List.drop_drop, hdrop, List.drop_one, List.tail_cons]
  have hlt : index < string.length := by
    by_contra hout
    rw [List.drop_eq_nil_of_le (not_lt.mp hout)] at hdrop
    cases hdrop
  rw [toBytesFrom, if_pos hlt, loadAt_eq_ok (getElem?_of_drop hdrop), ok_bind]
  cases hx : toHex c with
  | none => rfl
  | some x =>
    have hy : toHex d = none := hbad.resolve_left (by simp [hx])
    dsimp only
    rw [loadAt_eq_ok (getElem?_of_drop hnext), ok_bind, hy]
    rfl

/-- The cells up to the one that is written. -/
lemma take_toList_set (bytes : Vector Byte n) {position : ℕ} (h : position < n) (b : Byte) :
    (bytes.set position b h).toList.take (position + 1) = bytes.toList.take position ++ [b] := by
  have hlen : (bytes.toList.take position).length = position := by
    rw [List.length_take, Vector.length_toList]
    omega
  rw [Vector.toList_set, List.take_set, List.take_add_one,
    List.set_append_right _ _ hlen.le, hlen, Nat.sub_self]
  simp [h]

/-- Of the characters from `index` on there are two at least. -/
lemma exists_drop_eq {index k : ℕ} (h : (string.drop index).length + 1 = 3 * (k + 1)) :
    ∃ c d rest, string.drop index = c :: d :: rest ∧ rest.length = 3 * k := by
  match string.drop index, h with
  | [], h => simp at h; omega
  | [_], h => simp at h; omega
  | c :: d :: rest, h => exact ⟨c, d, rest, rfl, by simp at h; omega⟩

/-- The last group ends the loop. -/
lemma toBytesFrom_last {fuel index position : ℕ} {bytes : Vector Byte n} {c d x y : Byte}
    (hdrop : string.drop index = [c, d]) (hx : toHex c = some x) (hy : toHex d = some y)
    (hposition : position < n) (hlast : position + 1 = n) (hlength : string.length ≤ index + 3) :
    toBytesFrom n string (fuel + 2) index position bytes =
      .ok (some (bytes.set position (HexText.byte x y) hposition)) := by
  rw [toBytesFrom_digits hdrop hx hy hposition]
  dsimp only
  rw [if_neg (by omega), toBytesFrom, if_neg (by omega), if_pos hlast]
  rfl

/-- Another group needs a separator in front of it. -/
lemma toBytesFrom_next {fuel index position : ℕ} {bytes : Vector Byte n} {c d s x y : Byte}
    {rest : List Byte} (hdrop : string.drop index = c :: d :: s :: rest) (hx : toHex c = some x)
    (hy : toHex d = some y) (hposition : position < n) (hlater : position + 1 < n) :
    toBytesFrom n string (fuel + 1) index position bytes =
      if s = 0x3A then toBytesFrom n string fuel (index + 3) (position + 1)
        (bytes.set position (HexText.byte x y) hposition)
      else .ok none := by
  have hseparator : string.drop (index + 2) = s :: rest := by
    rw [← List.drop_drop, hdrop]
    rfl
  rw [toBytesFrom_digits hdrop hx hy hposition]
  dsimp only
  rw [if_pos (by omega), loadAt_eq_ok (getElem?_of_drop hseparator), ok_bind]
  by_cases hs : s = 0x3A
  · rw [if_neg (not_not.mpr hs), if_pos hs]
  · rw [if_pos hs, if_neg hs]
    rfl

/-- The loop reads the groups from `position` on, and leaves the bytes in front of them. -/
lemma toBytesFrom_spec (fuel : ℕ) {position : ℕ} (bytes : Vector Byte n) (hposition : position < n)
    (hlength : string.length + 1 = 3 * n) (hfuel : n - position < fuel) :
    ∃ r, toBytesFrom n string fuel (3 * position) position bytes = .ok r ∧
      ∀ v, r = some v ↔ ∃ read, Groups toHex 0x3A (string.drop (3 * position)) read ∧
        v.toList = bytes.toList.take position ++ read := by
  induction fuel generalizing position bytes with
  | zero => omega
  | succ fuel ih =>
    obtain ⟨c, d, rest, hdrop, hrest⟩ : ∃ c d rest, string.drop (3 * position) = c :: d :: rest ∧
        rest.length = 3 * (n - position - 1) := by
      apply exists_drop_eq
      rw [List.length_drop]
      omega
    by_cases hbad : toHex c = none ∨ toHex d = none
    · refine ⟨none, toBytesFrom_bad hdrop hbad, fun v => iff_of_false (by simp) ?_⟩
      rintro ⟨read, hgroups, -⟩
      rw [hdrop] at hgroups
      exact HexText.not_groups hbad hgroups
    obtain ⟨hc, hd⟩ := not_or.mp hbad
    obtain ⟨x, hx⟩ := Option.ne_none_iff_exists'.mp hc
    obtain ⟨y, hy⟩ := Option.ne_none_iff_exists'.mp hd
    have htake := take_toList_set bytes hposition (HexText.byte x y)
    by_cases hlater : position + 1 < n
    -- a group that is not the last has to be followed by the separator
    · obtain ⟨s, rest, rfl⟩ := List.exists_cons_of_length_pos (show 0 < rest.length by omega)
      have hnext : string.drop (3 * (position + 1)) = rest := by
        rw [show 3 * (position + 1) = 3 * position + 3 by ring, ← List.drop_drop, hdrop]
        rfl
      rw [toBytesFrom_next hdrop hx hy hposition hlater, hdrop]
      simp only [HexText.groups_cons_iff hx hy]
      by_cases hs : s = 0x3A
      · rw [if_pos hs]
        obtain ⟨r, hr, hspec⟩ := ih (bytes.set position (HexText.byte x y) hposition) hlater
          (by omega)
        refine ⟨r, hr, fun v => ?_⟩
        rw [hspec v, hnext, htake]
        simp [hs]
      · rw [if_neg hs]
        refine ⟨none, rfl, fun v => iff_of_false (by simp) ?_⟩
        rintro ⟨read, ⟨hseparator, -⟩, -⟩
        exact hs hseparator
    · obtain rfl : rest = [] := List.eq_nil_of_length_eq_zero (by omega)
      obtain ⟨fuel, rfl⟩ : ∃ k, fuel = k + 1 := ⟨fuel - 1, by omega⟩
      have hend : position + 1 = n := by omega
      refine ⟨_, toBytesFrom_last hdrop hx hy hposition hend (by omega), fun v => ?_⟩
      rw [hend, List.take_of_length_le (by simp)] at htake
      simp only [hdrop, HexText.groups_pair_iff hx hy, exists_eq_left, Option.some.injEq,
        ← Vector.toList_inj, htake]
      exact eq_comm

/-- The parser reads the groups of the digits that `toHex` knows, and nothing else. -/
lemma toBytes_spec {length : ℕ} (hn : 0 < n) (hlength : length + 1 = 3 * n) (string : List Byte)
    (bytes : Vector Byte n) :
    ∃ r, toBytes n length string bytes = .ok r ∧
      ∀ v, r = some v ↔ Groups toHex 0x3A string v.toList := by
  unfold toBytes
  split_ifs with hstring
  · refine ⟨none, rfl, fun v => iff_of_false (by simp) fun hgroups => ?_⟩
    have hsize := hgroups.length
    rw [Vector.length_toList] at hsize
    omega
  · have hsize : string.length + 1 = 3 * n := by omega
    obtain ⟨r, hr, hspec⟩ := toBytesFrom_spec (string.length + 1) bytes hn hsize (by omega)
    refine ⟨r, hr, fun v => ?_⟩
    rw [hspec v]
    simp

/-! ## The grammar -/

/-- A parser of `n` groups keeps to the grammar at a string: it accepts the digits of either case,
stores their bytes, and does not see the case. -/
structure Meets (n : ℕ) (parse : List Byte → Checked (Option (Vector Byte n)))
    (string : List Byte) : Prop where
  accepts : ∃ r, parse string = .ok r ∧
    ∀ v, r = some v ↔ Groups HexText.value 0x3A string v.toList
  folded : parse string = parse (string.map upper)

/-- The string is no text of `n` bytes, or one without the digits `b` to `f` in lower case. -/
def Legible (n : ℕ) (string : List Byte) : Prop :=
  (∃ bytes : Vector Byte n, Groups HexText.value 0x3A string bytes.toList) →
    ∀ c ∈ string, ¬ Lost c

lemma groups_toHex {bytes : List Byte} :
    Groups toHex 0x3A string bytes ↔
      Groups HexText.value 0x3A string bytes ∧ ∀ c ∈ string, ¬ Lost c :=
  groups_without toHex_eq (by decide)

lemma groups_upper {bytes : List Byte} :
    Groups HexText.value 0x3A (string.map upper) bytes ↔ Groups HexText.value 0x3A string bytes :=
  groups_map_upper (by decide)

/-- In upper case there is nothing that `toHex` does not know. -/
lemma not_lost_upper : ∀ c ∈ string.map upper, ¬ Lost c := by
  have hcases : ∀ c : Byte, ¬ Lost (upper c) := by decide
  intro c hc
  obtain ⟨c', -, rfl⟩ := List.mem_map.mp hc
  exact hcases c'

lemma meets_iff {length : ℕ} (hn : 0 < n) (hlength : length + 1 = 3 * n) (string : List Byte)
    (bytes : Vector Byte n) :
    Meets n (fun string => toBytes n length string bytes) string ↔ Legible n string := by
  obtain ⟨r, hr, hspec⟩ := toBytes_spec hn hlength string bytes
  obtain ⟨r', hr', hspec'⟩ := toBytes_spec hn hlength (string.map upper) bytes
  have hupper : ∀ v, r' = some v ↔ Groups HexText.value 0x3A string v.toList := fun v => by
    rw [hspec' v, groups_toHex, groups_upper, and_iff_left not_lost_upper]
  constructor
  -- what is accepted has no digit that gets lost
  · rintro ⟨⟨r₁, hr₁, haccepts⟩, -⟩ ⟨v, hv⟩
    rw [hr] at hr₁
    obtain rfl := Except.ok.inj hr₁
    exact (groups_toHex.mp ((hspec v).mp ((haccepts v).mpr hv))).2
  · intro h
    have hsame : ∀ v, r = some v ↔ Groups HexText.value 0x3A string v.toList := fun v => by
      rw [hspec v, groups_toHex]
      exact and_iff_left_of_imp fun hv => h ⟨v, hv⟩
    refine ⟨⟨r, hr, hsame⟩, ?_⟩
    have heq : r = r' := Option.ext fun v => (hsame v).trans (hupper v).symm
    rw [hr, hr', heq]

/-- What is printed in upper case is read back. -/
lemma toBytes_print {length : ℕ} (hn : 0 < n) (hlength : length + 1 = 3 * n)
    (v bytes : Vector Byte n) :
    toBytes n length (HexText.print 0x3A v.toList) bytes = .ok (some v) := by
  have hne : v.toList ≠ [] := by
    rw [← List.length_pos_iff, Vector.length_toList]
    exact hn
  obtain ⟨r, hr, hspec⟩ := toBytes_spec hn hlength (HexText.print 0x3A v.toList) bytes
  have hupper : ∀ c ∈ HexText.print 0x3A v.toList, ¬ Lost c := by
    rw [← HexText.map_upper_print (by decide) v.toList]
    exact not_lost_upper
  rw [hr, (hspec v).mpr (groups_toHex.mpr ⟨groups_print 0x3A hne, hupper⟩)]

/-- **Addresses and ids.** At every string each of the three parsers keeps to the grammar exactly
if the string is no text of an address, or has none of the digits `b` to `f` in lower case. All of
them undo the printing of an address. -/
theorem parsers_meet_iff (string : List Byte) (address memory : Vector Byte BLE_ADDRESS_SIZE)
    (id place : Vector Byte NFC_ID_SIZE) :
    (Meets BLE_ADDRESS_SIZE toBLEAddressId string ↔ Legible BLE_ADDRESS_SIZE string) ∧
      (Meets 6 (Button.toAddress · memory) string ↔ Legible 6 string) ∧
      (Meets NFC_ID_SIZE (Reader.toId · place) string ↔ Legible NFC_ID_SIZE string) ∧
      toBLEAddressId (HexText.print 0x3A address.toList) = .ok (some address) ∧
      Button.toAddress (HexText.print 0x3A address.toList) memory = .ok (some address) ∧
      Reader.toId (HexText.print 0x3A id.toList) place = .ok (some id) := by
  refine ⟨?_, ?_, ?_, ?_, ?_, ?_⟩
  · rw [funext toBLEAddressId_eq]
    exact meets_iff (by decide) (by decide) string _
  · exact meets_iff (by decide) (by decide) string memory
  · exact meets_iff (by decide) (by decide) string place
  · rw [toBLEAddressId_eq]
    exact toBytes_print (by decide) (by decide) address _
  · exact toBytes_print (by decide) (by decide) address memory
  · exact toBytes_print (by decide) (by decide) id place

/-- The address `0b:00:00:00:00:00` is read in upper case only, and so is such an id. -/
theorem parsers_lose_digits :
    Groups HexText.value 0x3A (ascii "0b:00:00:00:00:00") [0x0B, 0, 0, 0, 0, 0] ∧
      toBLEAddressId (ascii "0b:00:00:00:00:00") = .ok none ∧
      toBLEAddressId (ascii "0B:00:00:00:00:00") = .ok (some #v[0x0B, 0, 0, 0, 0, 0]) ∧
      ¬ Meets BLE_ADDRESS_SIZE toBLEAddressId (ascii "0b:00:00:00:00:00") ∧
      ¬ Meets 6 (Button.toAddress · (Vector.replicate _ 0)) (ascii "0b:00:00:00:00:00") ∧
      ¬ Meets NFC_ID_SIZE (Reader.toId · (Vector.replicate _ 0))
        (ascii "0b:00:00:00:00:00:00") := by
  refine ⟨?_, by decide, by decide, fun h => absurd h.folded (by decide),
    fun h => absurd h.folded (by decide), fun h => absurd h.folded (by decide)⟩
  have hprint : (ascii "0b:00:00:00:00:00").map upper =
      HexText.print 0x3A [0x0B, 0, 0, 0, 0, 0] := by decide
  rw [← groups_upper, hprint]
  exact groups_print 0x3A (List.cons_ne_nil _ _)

/-! ## The allow-lists -/

/-- `initDevides` of the button and `initIds` of the reader: the entries that the parser reads, in
memory that `new` has left as it was. -/
def initList (parse : List Byte → Vector Byte n → Checked (Option (Vector Byte n)))
    (memory : Vector Byte n) : Setting → Checked (List (Vector Byte n))
  | .list elements => do
    let entries ← elements.mapM fun value => parse value.toString memory
    return entries.filterMap id
  | _ => .ok []

/-- `allowed`. -/
def allowed (entries : List (Vector Byte n)) (id : Vector Byte n) : Bool :=
  entries.any fun entry => entry = id

/-- **Allow-lists.** What is allowed is what some entry of the list in the settings spells, without
the digits `b` to `f` in lower case. Other entries are skipped. -/
theorem allowed_iff {length : ℕ} (hn : 0 < n) (hlength : length + 1 = 3 * n)
    (memory : Vector Byte n) (settings : Setting) :
    ∃ entries, initList (toBytes n length) memory settings = .ok entries ∧
      ∀ id, allowed entries id = true ↔ ∃ elements, settings = .list elements ∧
        ∃ value ∈ elements, Groups HexText.value 0x3A value.toString id.toList ∧
          ∀ c ∈ value.toString, ¬ Lost c := by
  choose read hread hspec using fun string : List Byte => toBytes_spec hn hlength string memory
  cases settings with
  | list elements =>
    refine ⟨(elements.map fun value => read value.toString).filterMap id, ?_, fun id => ?_⟩
    · have hentries := Memory.mapM_eq_ok fun (value : Setting) (_ : value ∈ elements) =>
        hread value.toString
      unfold initList
      dsimp only
      rw [hentries, ok_bind]
      rfl
    · simp only [allowed, List.any_eq_true, decide_eq_true_eq, exists_eq_right, List.mem_filterMap,
        List.mem_map, id_eq, hspec, groups_toHex, Setting.list.injEq, exists_eq_left']
  | _ => exact ⟨[], rfl, fun id => by simp [allowed]⟩

/-- An entry in lower case is skipped, and its reader is not allowed. -/
example : initList (toBytes 6 17) (Vector.replicate 6 0)
    (.list [.string (ascii "0b:00:00:00:00:00"), .string (ascii "0A:00:00:00:00:00")]) =
      .ok [#v[0x0A, 0, 0, 0, 0, 0]] := by decide

end Services
end Vng
