import Mathlib.Data.Nat.Bitwise
import Vng.Host
import Vng.Lib.Slots
import Vng.Lib.Transducer

/-!
# The option filter

`coap_opt_filter_t` is a mask of 16 bits over two slots for option numbers above 255 and six for
the others. A bit says that its slot is in use.
-/

namespace Vng.Libcoap

/-- `opt_filter`. -/
structure OptFilter where
  mask : BitVec 16
  longOpts : Vector Word 2
  shortOpts : Vector Byte 6
deriving DecidableEq, Repr

/-- The operations on a filter. -/
inductive FilterOp
  | set
  | clear
  | get
deriving DecidableEq, Repr

/-- `coap_option_filter_clear`: `memset` to 0. -/
def OptFilter.cleared : OptFilter := ⟨0, Vector.replicate 2 0, Vector.replicate 6 0⟩

/-- `is_long_option`: numbers that one byte does not hold. -/
def isLongOption (type : Word) : Bool := 255 < type.toNat

/-- The loop of `coap_fls` over an `unsigned int` of `w` bits. -/
def flsLoop : ℕ → ℕ → ℕ
  | 0, _ => 0
  | w + 1, i => if i = 0 then 0 else flsLoop w (i / 2) + 1

/-- `coap_fls`: the place of the highest bit, counted from one. -/
def coapFls (i : ℕ) : ℕ := flsLoop 32 i

section Op

variable {α : Type} [DecidableEq α] {n : ℕ}

/-- The first slot in use with `x`; the bits of these slots start at `base`. -/
def search (mask : BitVec 16) (base : ℕ) (opts : Vector α n) (x : α) : Option (Fin n) :=
  (List.finRange n).find? fun i => mask.getLsbD (base + i) && opts[i] = x

/-- `coap_option_filter_op` on the slots of one kind. -/
def opOn (mask slotMask : BitVec 16) (base : ℕ) (opts : Vector α n) (x : α) (op : FilterOp) :
    (BitVec 16 × Vector α n) × ℕ :=
  match search mask base opts x with
  | some i => ((if op = .clear then mask &&& ~~~(1#16 <<< (base + i.val)) else mask, opts), 1)
  | none =>
    if op = .clear ∨ op = .get then ((mask, opts), 0)
    else
      let index := coapFls (~~~mask &&& slotMask).toNat
      if index = 0 then ((mask, opts), 0)
      else ((mask ||| 1#16 <<< (index - 1), opts.setIfInBounds (index - base - 1) x), 1)

end Op

/-- `LONG_MASK`. -/
def longMask : BitVec 16 := 0x0003

/-- `SHORT_MASK`. -/
def shortMask : BitVec 16 := 0x00FC

/-- `coap_option_filter_op`. -/
def coapOptionFilterOp (f : OptFilter) (type : Word) (op : FilterOp) : OptFilter × ℕ :=
  if isLongOption type then
    let ((mask, opts), result) := opOn f.mask longMask 0 f.longOpts type op
    ({ f with mask := mask, longOpts := opts }, result)
  else
    let ((mask, opts), result) := opOn f.mask shortMask 2 f.shortOpts (type.setWidth 8) op
    ({ f with mask := mask, shortOpts := opts }, result)

def coapOptionFilterSet (f : OptFilter) (type : Word) : OptFilter × ℕ :=
  coapOptionFilterOp f type .set

def coapOptionFilterGet (f : OptFilter) (type : Word) : ℕ := (coapOptionFilterOp f type .get).2

/-! ## The last bit set -/

section Fls

variable {w i : ℕ}

/-- No bit is found exactly if none is set. -/
lemma flsLoop_eq_zero_iff (hi : i < 2 ^ w) : flsLoop w i = 0 ↔ i = 0 := by
  cases w with
  | zero =>
    rw [pow_zero, Nat.lt_one_iff] at hi
    exact iff_of_true rfl hi
  | succ w =>
    rcases eq_or_ne i 0 with h | h
    · exact iff_of_true (if_pos h) h
    · rw [flsLoop, if_neg h]
      exact iff_of_false (Nat.succ_ne_zero _) h

/-- The number found is one more than the place of the highest bit. -/
lemma testBit_flsLoop (hi : i < 2 ^ w) (hne : i ≠ 0) : i.testBit (flsLoop w i - 1) := by
  induction w generalizing i with
  | zero =>
    rw [pow_zero, Nat.lt_one_iff] at hi
    exact absurd hi hne
  | succ w ih =>
    have hhalf : i / 2 < 2 ^ w := by
      rw [pow_succ] at hi
      omega
    rw [flsLoop, if_neg hne, Nat.add_sub_cancel]
    by_cases hzero : i / 2 = 0
    · obtain rfl : i = 1 := by omega
      have hloop : flsLoop w (1 / 2) = 0 := (flsLoop_eq_zero_iff hhalf).mpr hzero
      rw [hloop]
      rfl
    · have hpos : flsLoop w (i / 2) ≠ 0 := mt (flsLoop_eq_zero_iff hhalf).mp hzero
      have hbit := ih hhalf hzero
      rwa [Nat.testBit_div_two, Nat.sub_add_cancel (Nat.pos_of_ne_zero hpos)] at hbit

end Fls

/-! ## The slots of one kind -/

section Slots

variable {α : Type} {n base : ℕ} {mask slotMask : BitVec 16} {opts : Vector α n} {x : α}
  {values : Finset α} {i : Fin n}

/-- What the slots hold. -/
def slots (mask : BitVec 16) (base : ℕ) (opts : Vector α n) (i : Fin n) : Option α :=
  if mask.getLsbD (base + i) then some opts[i] else none

/-- A slot holds a number if its bit of the mask is set. -/
lemma slots_eq_some_iff :
    slots mask base opts i = some x ↔ mask.getLsbD (base + i) = true ∧ opts[i] = x := by
  unfold slots
  split_ifs with h <;> simp [h]

/-- A slot is free if its bit is not set. -/
lemma slots_eq_none_iff : slots mask base opts i = none ↔ mask.getLsbD (base + i) = false := by
  unfold slots
  split_ifs with h <;> simp [h]

lemma getLsbD_bit {j k : ℕ} (hk : k < 16) : (1#16 <<< k).getLsbD j = decide (j = k) := by
  rw [BitVec.getLsbD_shiftLeft, BitVec.getLsbD_one]
  by_cases h : j = k
  · simp [h, hk]
  · simp [h]
    omega

/-- Clearing the bit of a slot clears the slot. -/
lemma slots_clear (hi : base + n ≤ 16) :
    slots (mask &&& ~~~(1#16 <<< (base + i.val))) base opts =
      Function.update (slots mask base opts) i none := by
  funext j
  have := i.isLt
  have := j.isLt
  unfold slots
  rw [BitVec.getLsbD_and, BitVec.getLsbD_not, getLsbD_bit (by omega)]
  by_cases hji : j = i
  · simp [hji]
  · have hne : base + j.val ≠ base + i.val := fun h => hji (Fin.ext (by omega))
    rw [Function.update_of_ne hji, decide_eq_false hne]
    simp [show base + j.val < 16 by omega]

/-- A value that is stored in a free slot, with the bit of the slot set. -/
lemma slots_put (hi : base + n ≤ 16) :
    slots (mask ||| 1#16 <<< (base + i.val)) base (opts.setIfInBounds i x) =
      Function.update (slots mask base opts) i (some x) := by
  funext j
  have := i.isLt
  have := j.isLt
  unfold slots
  rw [BitVec.getLsbD_or, getLsbD_bit (by omega)]
  by_cases hji : j = i
  · simp [hji]
  · have hne : base + j.val ≠ base + i.val := fun h => hji (Fin.ext (by omega))
    have hval : i.val ≠ j.val := fun h => hji (Fin.ext h.symm)
    rw [Function.update_of_ne hji, decide_eq_false hne, Bool.or_false]
    simp [hval]

/-- The bits of `slotMask` are those of the slots. -/
def Covers (slotMask : BitVec 16) (base n : ℕ) : Prop :=
  base + n ≤ 16 ∧ ∀ j < 16, slotMask.getLsbD j = true ↔ base ≤ j ∧ j < base + n

/-- The highest bit that is not set is a free slot, if there is one. -/
lemma coapFls_free (mask : BitVec 16) (opts : Vector α n) (hcovers : Covers slotMask base n) :
    (coapFls (~~~mask &&& slotMask).toNat = 0 → ∀ i, slots mask base opts i ≠ none) ∧
      (coapFls (~~~mask &&& slotMask).toNat ≠ 0 →
        ∃ i : Fin n, coapFls (~~~mask &&& slotMask).toNat = base + i + 1 ∧
          slots mask base opts i = none) := by
  have hlt : (~~~mask &&& slotMask).toNat < 2 ^ 32 :=
    (BitVec.isLt _).trans (by decide)
  constructor
  -- no bit is left, so no slot is free
  · intro hzero i hi
    have hfree := (flsLoop_eq_zero_iff hlt).mp hzero
    have hbit : (~~~mask &&& slotMask).getLsbD (base + i) = false := by
      rw [← BitVec.testBit_toNat, hfree, Nat.zero_testBit]
    have hin : base + i.val < 16 := by
      have := i.isLt
      have := hcovers.1
      omega
    have hslot : slotMask.getLsbD (base + i) = true :=
      (hcovers.2 _ hin).mpr ⟨Nat.le_add_right _ _, Nat.add_lt_add_left i.isLt _⟩
    rw [BitVec.getLsbD_and, BitVec.getLsbD_not, slots_eq_none_iff.mp hi, hslot] at hbit
    simp [hin] at hbit
  -- the bit that is found belongs to a slot, and the slot is free
  · intro hne
    have hpos : (~~~mask &&& slotMask).toNat ≠ 0 := mt (flsLoop_eq_zero_iff hlt).mpr hne
    have hbit := testBit_flsLoop hlt hpos
    rw [BitVec.testBit_toNat, BitVec.getLsbD_and, Bool.and_eq_true, BitVec.getLsbD_not,
      Bool.and_eq_true, decide_eq_true_eq] at hbit
    obtain ⟨⟨hin, hfree⟩, hslot⟩ := hbit
    obtain ⟨hbase, hend⟩ := (hcovers.2 _ hin).mp hslot
    refine ⟨⟨flsLoop 32 (~~~mask &&& slotMask).toNat - 1 - base, by omega⟩, ?_, ?_⟩
    · show flsLoop 32 _ = base + (flsLoop 32 _ - 1 - base) + 1
      have : flsLoop 32 (~~~mask &&& slotMask).toNat ≠ 0 := hne
      omega
    · rw [slots_eq_none_iff]
      show mask.getLsbD (base + (flsLoop 32 _ - 1 - base)) = false
      rw [Nat.add_sub_cancel' hbase]
      simpa using hfree

variable [DecidableEq α]

/-- What is found is in its slot. -/
lemma search_eq_some (h : search mask base opts x = some i) :
    slots mask base opts i = some x := by
  have := List.find?_some h
  simp only [Bool.and_eq_true, decide_eq_true_eq] at this
  exact slots_eq_some_iff.mpr this

/-- What is not found is in no slot. -/
lemma search_eq_none (h : search mask base opts x = none) :
    ∀ i, slots mask base opts i ≠ some x := by
  intro i hi
  have hmem := List.find?_eq_none.mp h i (List.mem_finRange i)
  obtain ⟨hbit, hx⟩ := slots_eq_some_iff.mp hi
  simp [hbit, hx] at hmem

/-- The search is right about the set that the slots hold. -/
lemma search_eq_none_of_notMem (h : Slots.Holds (slots mask base opts) values) :
    search mask base opts x = none ↔ x ∉ values := by
  rw [h.mem_iff, not_exists]
  constructor
  · exact search_eq_none
  · intro hnone
    cases hsearch : search mask base opts x with
    | none => rfl
    | some i => exact absurd (search_eq_some hsearch) (hnone i)

/-- What an operation makes of a set that takes up to `n` values. -/
def opOnSet (n : ℕ) (values : Finset α) (x : α) : FilterOp → Finset α × ℕ
  | .get => (values, if x ∈ values then 1 else 0)
  | .clear => (values.erase x, if x ∈ values then 1 else 0)
  | .set => if x ∈ values ∨ values.card < n then (insert x values, 1) else (values, 0)

/-- **The slots of one kind hold a bounded set.** -/
theorem opOn_holds (hcovers : Covers slotMask base n)
    (h : Slots.Holds (slots mask base opts) values) (op : FilterOp) :
    Slots.Holds (slots (opOn mask slotMask base opts x op).1.1 base
        (opOn mask slotMask base opts x op).1.2) (opOnSet n values x op).1 ∧
      (opOn mask slotMask base opts x op).2 = (opOnSet n values x op).2 := by
  unfold opOn
  cases hsearch : search mask base opts x with
  -- the number has a slot
  | some i =>
    have hslot := search_eq_some hsearch
    have hmem : x ∈ values := (h.mem_iff x).mpr ⟨i, hslot⟩
    cases op with
    | set => simpa [opOnSet, hmem, Finset.insert_eq_of_mem] using h
    | clear =>
      simp only [opOnSet, hmem, if_true, and_true]
      rw [slots_clear hcovers.1]
      exact h.clear hslot
    | get => simpa [opOnSet, hmem] using h
  -- it has none; only setting it changes anything, if a slot is free
  | none =>
    have hmem : x ∉ values := (search_eq_none_of_notMem h).mp hsearch
    cases op with
    | set =>
      obtain ⟨hfull, hfree⟩ := coapFls_free mask opts hcovers
      simp only [reduceCtorEq, or_self, if_false, opOnSet, hmem, false_or]
      by_cases hzero : coapFls (~~~mask &&& slotMask).toNat = 0
      · have hcard : ¬ values.card < n := by
          rw [h.card_lt_iff]
          rintro ⟨i, hi⟩
          exact hfull hzero i hi
        rw [if_pos hzero, if_neg hcard]
        exact ⟨h, rfl⟩
      · obtain ⟨i, hindex, hi⟩ := hfree hzero
        rw [if_neg hzero, if_pos (h.card_lt_iff.mpr ⟨i, hi⟩)]
        refine ⟨?_, rfl⟩
        rw [hindex, Nat.add_sub_cancel, show base + i.val + 1 - base - 1 = i.val by omega,
          slots_put hcovers.1]
        exact h.put hi hmem
    | clear => simpa [opOnSet, hmem, Finset.erase_eq_of_notMem] using h
    | get => simpa [opOnSet, hmem] using h

/-- The bits of the other slots stay. -/
lemma opOn_frame (opts : Vector α n) (hcovers : Covers slotMask base n) (op : FilterOp) {j : ℕ}
    (hj : j < base ∨ base + n ≤ j) :
    (opOn mask slotMask base opts x op).1.1.getLsbD j = mask.getLsbD j := by
  unfold opOn
  cases search mask base opts x with
  -- only the bit of the slot may change
  | some i =>
    have hi := i.isLt
    have hin := hcovers.1
    have hne : j ≠ base + i.val := by omega
    dsimp only
    split_ifs
    · rw [BitVec.getLsbD_and, BitVec.getLsbD_not, getLsbD_bit (by omega), decide_eq_false hne]
      rcases Nat.lt_or_ge j 16 with hlt | hge
      · simp [hlt]
      · simp [BitVec.getLsbD_of_ge mask j hge]
    · rfl
  | none =>
    dsimp only
    split_ifs with hop hzero
    · rfl
    · rfl
    · obtain ⟨i, hindex, -⟩ := (coapFls_free mask opts hcovers).2 hzero
      have hi := i.isLt
      have hin := hcovers.1
      have hne : j ≠ base + i.val := by omega
      rw [BitVec.getLsbD_or, hindex, Nat.add_sub_cancel, getLsbD_bit (by omega),
        decide_eq_false hne, Bool.or_false]

end Slots

/-! ## The filter -/

/-- What a call makes of the set of the option numbers: there is room for two long ones and six
others. -/
def opOnNumbers (numbers : Finset Word) (type : Word) : FilterOp → Finset Word × ℕ
  | .get => (numbers, if type ∈ numbers then 1 else 0)
  | .clear => (numbers.erase type, if type ∈ numbers then 1 else 0)
  | .set =>
    if type ∈ numbers ∨ (numbers.filter fun t => isLongOption t = isLongOption type).card <
        (if isLongOption type then 2 else 6) then (insert type numbers, 1)
    else (numbers, 0)

/-- The filter holds these option numbers. -/
structure Represents (f : OptFilter) (numbers : Finset Word) : Prop where
  long : Slots.Holds (slots f.mask 0 f.longOpts) (numbers.filter fun t => isLongOption t = true)
  short : Slots.Holds (slots f.mask 2 f.shortOpts)
    ((numbers.filter fun t => isLongOption t = false).image (BitVec.setWidth 8))

section Numbers

variable {f : OptFilter} {numbers : Finset Word} {type : Word}

lemma covers_long : Covers longMask 0 2 := by
  unfold Covers longMask
  decide

lemma covers_short : Covers shortMask 2 6 := by
  unfold Covers shortMask
  decide

/-- The short numbers are told apart by their low byte. -/
lemma setWidth_inj_of_short {s t : Word} (hs : isLongOption s = false) (ht : isLongOption t = false)
    (h : s.setWidth 8 = t.setWidth 8) : s = t := by
  unfold isLongOption at hs ht
  rw [decide_eq_false_iff_not] at hs ht
  have hnat := congrArg BitVec.toNat h
  rw [BitVec.toNat_setWidth, BitVec.toNat_setWidth, Nat.mod_eq_of_lt (by omega),
    Nat.mod_eq_of_lt (by omega)] at hnat
  exact BitVec.eq_of_toNat_eq hnat

/-- Cutting short numbers to a byte loses nothing. -/
lemma mem_short_iff (numbers : Finset Word) (htype : isLongOption type = false) :
    type.setWidth 8 ∈ (numbers.filter fun t => isLongOption t = false).image (BitVec.setWidth 8) ↔
      type ∈ numbers := by
  rw [Finset.mem_image]
  constructor
  · rintro ⟨t, ht, heq⟩
    rw [Finset.mem_filter] at ht
    rw [← setWidth_inj_of_short ht.2 htype heq]
    exact ht.1
  · intro h
    exact ⟨type, Finset.mem_filter.mpr ⟨h, htype⟩, rfl⟩

lemma card_short :
    ((numbers.filter fun t => isLongOption t = false).image
        (BitVec.setWidth 8 : Word → Byte)).card =
      (numbers.filter fun t => isLongOption t = false).card := by
  apply Finset.card_image_of_injOn
  intro s hs t ht h
  exact setWidth_inj_of_short (Finset.mem_filter.mp hs).2 (Finset.mem_filter.mp ht).2 h

/-- Slots are read from their own bits of the mask only. -/
lemma slots_congr {α : Type} {n base : ℕ} {mask mask' : BitVec 16} {opts : Vector α n}
    (h : ∀ j, base ≤ j → j < base + n → mask.getLsbD j = mask'.getLsbD j) :
    slots mask base opts = slots mask' base opts := by
  funext i
  unfold slots
  rw [h _ (Nat.le_add_right _ _) (Nat.add_lt_add_left i.isLt _)]

/-- The numbers of the kind of `type` change as their slots do. -/
lemma opOnNumbers_same (numbers : Finset Word) {room : ℕ}
    (hroom : room = if isLongOption type then 2 else 6) (op : FilterOp) :
    (opOnNumbers numbers type op).1.filter (fun t => isLongOption t = isLongOption type) =
        (opOnSet room (numbers.filter fun t => isLongOption t = isLongOption type) type op).1 ∧
      (opOnNumbers numbers type op).2 =
        (opOnSet room (numbers.filter fun t => isLongOption t = isLongOption type) type op).2 := by
  have hmem : type ∈ (numbers.filter fun t => isLongOption t = isLongOption type) ↔
      type ∈ numbers := by simp
  -- the room is the one of the numbers of this kind
  subst hroom
  cases op with
  | set =>
    simp only [opOnNumbers, opOnSet, hmem]
    split_ifs
    · exact ⟨by rw [Finset.filter_insert, if_pos rfl], rfl⟩
    · exact ⟨rfl, rfl⟩
    · exact ⟨by rw [Finset.filter_insert, if_pos rfl], rfl⟩
    · exact ⟨rfl, rfl⟩
  | clear =>
    simp only [opOnNumbers, opOnSet, hmem, and_true]
    rw [Finset.filter_erase]
  | get => simp only [opOnNumbers, opOnSet, hmem, and_true]

/-- The numbers of the other kind stay. -/
lemma opOnNumbers_other {kind : Bool} (hkind : isLongOption type ≠ kind) (op : FilterOp) :
    (opOnNumbers numbers type op).1.filter (fun t => isLongOption t = kind) =
      numbers.filter fun t => isLongOption t = kind := by
  cases op with
  | set =>
    simp only [opOnNumbers]
    split_ifs
    · exact (Finset.filter_insert ..).trans (if_neg hkind)
    · rfl
    · exact (Finset.filter_insert ..).trans (if_neg hkind)
    · rfl
  | clear =>
    rw [opOnNumbers, Finset.filter_erase, Finset.erase_eq_of_notMem]
    simp [hkind]
  | get => rfl

/-- The set of the low bytes changes as the set of the numbers does. -/
lemma opOnSet_image (htype : isLongOption type = false) (op : FilterOp) :
    opOnSet 6 ((numbers.filter fun t => isLongOption t = false).image (BitVec.setWidth 8))
        (type.setWidth 8) op =
      ((opOnSet 6 (numbers.filter fun t => isLongOption t = false) type op).1.image
        (BitVec.setWidth 8),
        (opOnSet 6 (numbers.filter fun t => isLongOption t = false) type op).2) := by
  have hmem := mem_short_iff numbers htype
  have hmem' : type ∈ (numbers.filter fun t => isLongOption t = false) ↔ type ∈ numbers := by
    simp [htype]
  cases op with
  | set =>
    simp only [opOnSet, hmem, hmem', card_short]
    split_ifs
    · rw [Finset.image_insert]
    · rfl
  -- short numbers are told apart by their low byte
  | clear =>
    simp only [opOnSet, hmem, hmem', Prod.mk.injEq, and_true]
    ext b
    simp only [Finset.mem_erase, Finset.mem_image, Finset.mem_filter]
    constructor
    · rintro ⟨hne, t, ⟨ht, hshort⟩, rfl⟩
      exact ⟨t, ⟨fun heq => hne (heq ▸ rfl), ht, hshort⟩, rfl⟩
    · rintro ⟨t, ⟨hne, ht, hshort⟩, rfl⟩
      exact ⟨fun heq => hne (setWidth_inj_of_short hshort htype heq), t, ⟨ht, hshort⟩, rfl⟩
  | get => simp only [opOnSet, hmem, hmem']

/-- Every operation does to the filter what it does to the set. -/
lemma represents_op (h : Represents f numbers) (type : Word) (op : FilterOp) :
    Represents (coapOptionFilterOp f type op).1 (opOnNumbers numbers type op).1 ∧
      (coapOptionFilterOp f type op).2 = (opOnNumbers numbers type op).2 := by
  cases htype : isLongOption type with
  -- the short slots see nothing of it
  | true =>
    have hspec := opOn_holds (x := type) covers_long h.long op
    obtain ⟨hsame, hresult⟩ :=
      opOnNumbers_same numbers (show 2 = if isLongOption type then 2 else 6 by
        rw [htype, if_pos rfl]) op
    rw [htype] at hsame hresult
    rw [coapOptionFilterOp, if_pos htype]
    refine ⟨⟨hsame ▸ hspec.1, ?_⟩, hspec.2.trans hresult.symm⟩
    rw [opOnNumbers_other (by rw [htype]; decide), slots_congr fun j hj _ =>
      opOn_frame (x := type) f.longOpts covers_long op (j := j) (.inr hj)]
    exact h.short
  -- the long slots see nothing of it
  | false =>
    have hspec := opOn_holds (x := type.setWidth 8) covers_short h.short op
    obtain ⟨hsame, hresult⟩ :=
      opOnNumbers_same numbers (show 6 = if isLongOption type then 2 else 6 by
        rw [htype, if_neg (by decide)]) op
    rw [htype] at hsame hresult
    rw [opOnSet_image htype] at hspec
    rw [coapOptionFilterOp, if_neg (by rw [htype]; decide)]
    refine ⟨⟨?_, hsame ▸ hspec.1⟩, hspec.2.trans hresult.symm⟩
    rw [opOnNumbers_other (by rw [htype]; decide), slots_congr fun j _ hj =>
      opOn_frame (x := type.setWidth 8) f.shortOpts covers_short op (j := j)
        (.inl (by omega))]
    exact h.long

end Numbers

/-- A call: the operation, and what it answers. -/
def filterCall (f : OptFilter) (call : Word × FilterOp) : OptFilter × List ℕ :=
  let r := coapOptionFilterOp f call.1 call.2
  (r.1, [r.2])

def numbersCall (numbers : Finset Word) (call : Word × FilterOp) : Finset Word × List ℕ :=
  let r := opOnNumbers numbers call.1 call.2
  (r.1, [r.2])

/-- A cleared filter holds no number. -/
lemma represents_cleared : Represents OptFilter.cleared ∅ where
  long := by
    have hnone : slots OptFilter.cleared.mask 0 OptFilter.cleared.longOpts = fun _ => none := by
      funext i
      exact slots_eq_none_iff.mpr (BitVec.getLsbD_zero ..)
    rw [hnone]
    exact Slots.holds_empty
  short := by
    have hnone : slots OptFilter.cleared.mask 2 OptFilter.cleared.shortOpts = fun _ => none := by
      funext i
      exact slots_eq_none_iff.mpr (BitVec.getLsbD_zero ..)
    rw [hnone]
    exact Slots.holds_empty

/-- **The filter is a bounded set.** Whatever is set, unset and asked for, in any order, from a
cleared filter on, every call answers as it does on a set of numbers with room for two above 255 and
six others. -/
theorem filter_refines (calls : List (Word × FilterOp)) :
    Represents (Transducer.run filterCall .cleared calls).1
        (Transducer.run numbersCall ∅ calls).1 ∧
      (Transducer.run filterCall .cleared calls).2 = (Transducer.run numbersCall ∅ calls).2 := by
  refine Transducer.run_simulates (R := Represents) ?_ represents_cleared calls
  intro f numbers call h
  obtain ⟨hnext, hresult⟩ := represents_op h call.1 call.2
  exact ⟨hnext, by rw [filterCall, numbersCall]; exact congrArg (fun r => [r]) hresult⟩

end Vng.Libcoap
