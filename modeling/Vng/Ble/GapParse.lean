import Vng.Ble.GapPayload

/-!
# `setPayload` as a parser

The fields that `setPayload` has copied stand at the front of its source (`Copied`), and it stops
for one of the reasons of `Ends`. From these two:

* `setPayload_inside_iff`: which sources make it write behind the packet;
* `setPayload_parses_iff`: on which sources of up to 31 bytes it is the reference parser
  `Ltv.Parses`, and `field` a lookup in what that reads.
-/

namespace Vng
namespace Gap

open Ltv (Item encode encode_cons size size_append size_cons Parses)
open Memory (Checked Succeeds loadAt loadAll)

variable {s s' : Packet} {items : List Item} {source rest : List Byte} {bytes : Byte}

/-! ## What has been copied -/

/-- The packet holds the fields at the front of the source. A field without a value that ends the
source is not among them. -/
structure Copied (source : List Byte) (s : Packet) (items : List Item) (rest : List Byte) :
    Prop where
  fields : Fields s items
  source_eq : source = encode items ++ rest
  ended : rest = [] → ∀ before type, items ≠ before ++ [⟨type, []⟩]

/-- Nothing has been copied yet. -/
lemma copied_fresh (source : List Byte) : Copied source fresh [] source :=
  ⟨fields_fresh, rfl, by simp⟩

/-- The rest is what lies behind the items. -/
lemma Copied.drop_size (h : Copied source s items rest) : source.drop (size items) = rest := by
  rw [h.source_eq, size, List.drop_left]

/-- The items that were copied fit their length byte. -/
lemma Copied.encodable (h : Copied source s items rest) : ∀ i ∈ items, i.Encodable :=
  Ltv.encodable_of_size h.fields.layout.size_le (by decide)

/-- The source is the items and the rest. -/
lemma Copied.length (h : Copied source s items rest) :
    source.length = size items + rest.length := by
  rw [h.source_eq, List.length_append, size]

/-- A field of the source that starts where the walk looks and ends behind the packet. -/
def Overlong (source : List Byte) : Prop :=
  ∃ before i rest, source = encode (before ++ [i]) ++ rest ∧
    (∀ j ∈ before ++ [i], j.type ≠ 0) ∧ size before < BLE_PAYLOAD_SIZE - 2 ∧
    BLE_PAYLOAD_SIZE < size (before ++ [i])

/-- The loop ends after some fields, or comes to one that is too long. -/
lemma setPayloadFrom_outcome (hsource : source.length = bytes.toNat) (fuel : ℕ)
    (h : Copied source s items rest) (hfuel : BLE_PAYLOAD_SIZE < size items + fuel) :
    (∃ ret s' items' rest', setPayloadFrom source bytes fuel s = .ok (ret, s') ∧
      Copied source s' items' rest' ∧ Ends source bytes (size items') ret) ∨
    (Overlong source ∧ ¬Succeeds (setPayloadFrom source bytes fuel s)) := by
  -- each round copies one item, and the packet has no room for more than the fuel
  induction fuel generalizing s items rest with
  | zero =>
    have := h.fields.layout.size_le
    omega
  | succ fuel ih =>
    rcases setPayloadFrom_cases fuel h.fields.layout with ⟨ret, hend, hwhy⟩ | ⟨hlong, hfault⟩ |
      ⟨i, s₁, hzero, hvisible, hsize, ⟨tail, htail⟩, hlayout, hnext⟩
    · exact .inl ⟨ret, s, items, rest, hend, h, hwhy⟩
    · rcases hlong with hshort | ⟨i, tail, htail, hzero, hvisible, hlong, -⟩
      · omega
      · refine .inr ⟨⟨items, i, tail, ?_, ?_, hvisible, ?_⟩, hfault⟩
        · rw [h.drop_size] at htail
          rw [h.source_eq, htail, Ltv.encode_append, Ltv.encode_singleton, List.append_assoc]
        · intro j hj
          rcases List.mem_append.mp hj with hold | hnew
          · exact h.fields.types j hold
          · rwa [List.mem_singleton.mp hnew]
        · rwa [size_append, Ltv.size_singleton]
    · rw [hnext]
      rw [h.drop_size] at htail
      have hgrown : size (items ++ [i]) = size items + (i.value.length + 2) := by
        rw [size_append, Ltv.size_singleton]
      suffices hcopied : Copied source s₁ (items ++ [i]) tail from ih hcopied (by omega)
      refine ⟨fields_append h.fields hlayout hzero hvisible, ?_, ?_⟩
      · rw [h.source_eq, htail, Ltv.encode_append, Ltv.encode_singleton, List.append_assoc]
      · -- a round needs three bytes of source, so the last field has a value
        rintro rfl before type hlast
        obtain ⟨-, hitem⟩ := List.append_inj' hlast rfl
        rw [List.singleton_inj] at hitem
        have hlen := h.length
        rw [htail, List.append_nil, Ltv.length_encode_item, hitem] at hlen
        simp only [List.length_nil] at hlen
        omega

/-- The loop ends with the items that it has copied, or reads behind the source. -/
lemma setPayload_outcome (hsource : source.length = bytes.toNat) :
    (∃ ret s items rest, setPayload source bytes = .ok (ret, s) ∧ Copied source s items rest ∧
      Ends source bytes (size items) ret) ∨
    (Overlong source ∧ ¬Succeeds (setPayload source bytes)) :=
  setPayloadFrom_outcome hsource _ (copied_fresh source) (by simp)

/-! ## Where the loop stops -/

/-- A type that was read has a length in front of it. -/
lemma rest_of_loadAt {b : Byte} (h : source = encode items ++ rest)
    (hload : loadAt source (size items + 1) = .ok b) :
    ∃ length tail, rest = length :: b :: tail := by
  have hdrop : source.drop (size items) = rest := by rw [h, size, List.drop_left]
  obtain ⟨length, hlength⟩ := Memory.exists_loadAt_eq_ok
    (show size items < source.length by have := Memory.succeeds_loadAt_iff.mp ⟨b, hload⟩; omega)
  refine ⟨length, source.drop (size items + 2), ?_⟩
  rw [← hdrop, Memory.drop_of_loadAt hlength, Memory.drop_of_loadAt hload]

/-- The loop does not stop at a field that is complete, unless it is at the end of where it
looks. -/
lemma Copied.ends_item {i : Item} {tail : List Byte} {ret : ℤ} (h : Copied source s items rest)
    (hends : Ends source bytes (size items) ret) (hsource : source.length = bytes.toNat)
    (hitem : rest = i.encode ++ tail) (hzero : i.type ≠ 0) (hi : i.Encodable) :
    bytes.toNat ≤ size items + 2 ∨ BLE_PAYLOAD_SIZE - 2 ≤ size items := by
  have hlen := h.length
  rw [hitem, List.length_append, Ltv.length_encode_item] at hlen
  cases hends with
  | short hshort => exact hshort
  | typeZero htype =>
    obtain ⟨length, tail', hrest⟩ := rest_of_loadAt h.source_eq htype
    rw [hitem, Item.encode, List.cons_append, List.cons_append] at hrest
    simp only [List.cons.injEq] at hrest
    exact absurd hrest.2.1 hzero
  | @refused length type hround hlength htype hne hrefused =>
    have hdrop := Memory.drop_of_loadAt hlength
    rw [h.drop_size, hitem, Item.encode, List.cons_append] at hdrop
    have hbyte : length.toNat = i.value.length + 1 := by
      rw [← (List.cons.inj hdrop).1, Ltv.toNat_length_byte hi]
    omega

/-- **Where `setPayload` writes.** Given as many bytes as its size says, it reads and writes only
inside them and the packet, and leaves a length of at most 31, exactly if no field that it comes
to ends behind the packet. -/
theorem setPayload_inside_iff (hsource : source.length = bytes.toNat) :
    (∃ ret s, setPayload source bytes = .ok (ret, s) ∧ s.length.toNat ≤ BLE_PAYLOAD_SIZE) ↔
      ¬Overlong source := by
  rcases setPayload_outcome hsource with ⟨ret, s, items, rest, hset, hcopied, hends⟩ |
    ⟨hlong, hfault⟩
  · have hlayout := hcopied.fields.layout
    refine iff_of_true ⟨ret, s, hset, hlayout.length ▸ hlayout.size_le⟩ ?_
    rintro ⟨before, i, tail, hsplit, htypes, hvisible, hlong⟩
    have hle := hlayout.size_le
    have hlen := congrArg List.length hsplit
    rw [List.length_append, ← size, hsource] at hlen
    have hbytes := bytes.isLt
    have hencodable : ∀ j ∈ before ++ [i], j.Encodable :=
      Ltv.encodable_of_size (n := 255) (by omega) le_rfl
    -- the items that were copied, against those of an advertisement that is too long
    rcases Ltv.encode_append_cases hcopied.encodable hencodable
      (hcopied.source_eq.symm.trans hsplit) with ⟨more, hmore, hrest⟩ | ⟨j, more, rfl, -⟩
    · cases more with
      | nil =>
        rw [List.append_nil] at hmore
        rw [← hmore] at hle
        omega
      | cons j more =>
        -- the loop has stopped in front of a complete field
        have hbefore : before = items ++ (j :: more).dropLast := by
          rw [← List.dropLast_append_of_ne_nil (List.cons_ne_nil j more), ← hmore,
            List.dropLast_concat]
        have hj : j ∈ before ++ [i] := hmore ▸ List.mem_append_right _ List.mem_cons_self
        rw [encode_cons, List.append_assoc] at hrest
        have hstop := hcopied.ends_item hends hsource hrest (htypes j hj) (hencodable j hj)
        rw [hbefore, size_append] at hvisible
        omega
    · rw [size_append] at hle
      omega
  · refine iff_of_false ?_ (not_not.mpr hlong)
    rintro ⟨ret, s, hset, -⟩
    exact hfault ⟨_, hset⟩

theorem setPayload_inside_iff_flags :
    (∃ ret s, setPayload [0x02, 0x01, 0x06] 3 = .ok (ret, s) ∧
      s.length.toNat ≤ BLE_PAYLOAD_SIZE) ↔ ¬Overlong [0x02, 0x01, 0x06] :=
  setPayload_inside_iff (by decide)

/-- One field of 34 bytes, handed over with its size. -/
theorem setPayload_outside :
    ¬∃ ret s, setPayload (0x21 :: 0xFF :: List.replicate 32 0xAA) 34 = .ok (ret, s) ∧
      s.length.toNat ≤ BLE_PAYLOAD_SIZE := by
  rintro ⟨ret, s, hset, -⟩
  have hfault : setPayload (0x21 :: 0xFF :: List.replicate 32 0xAA) 34 = .error .outOfBounds := by
    decide
  rw [hfault] at hset
  cases hset

/-! ## The reference parser -/

/-- `field` yields the first of the items that has the type, length and type byte included. -/
def Finds (s : Packet) (items : List Item) (type : Byte) : Prop :=
  match items.find? (·.type = type) with
  | none => field s type = .ok none
  | some i => ∃ start, field s type = .ok (some start) ∧
    loadAll s.payload.toList start i.encode.length = .ok i.encode

/-- `setPayload` returns 0 exactly if the source can be read, and `field` then finds what was
read. -/
def ReadsAsReference (source : List Byte) (bytes : Byte) : Prop :=
  ∃ ret s, setPayload source bytes = .ok (ret, s) ∧ (ret = 0 ↔ ∃ items, Parses source items) ∧
    (ret = 0 → ∀ items, Parses source items → ∀ type ≠ 0, Finds s items type)

/-- One or two bytes behind the fields that say something: not a zero, nor an item of type zero,
nor the type of a field again, without a value. -/
def DroppedBehind (items : List Item) (rest : List Byte) : Prop :=
  (∃ b, rest = [b] ∧ b ≠ 0) ∨
    ∃ length type, rest = [length, type] ∧ type ≠ 0 ∧ (length = 1 → type ∉ items.map Item.type)

/-- The source ends with such bytes; no round of the loop starts there. -/
def Dropped (source : List Byte) : Prop :=
  ∃ items rest, source = encode items ++ rest ∧ (∀ i ∈ items, i.type ≠ 0) ∧
    DroppedBehind items rest

/-- `field` finds the first item of the type. -/
lemma finds_fields (h : Fields s items) (type : Byte) : Finds s items type := by
  unfold Finds
  rcases field_fields h type with ⟨hnone, hfield⟩ | ⟨before, i, after, rfl, hfirst, htype, hfield,
    post, hpayload⟩
  -- no item has the type
  · have hfind : items.find? (·.type = type) = none := by
      rw [List.find?_eq_none]
      intro i hi hsame
      exact hnone (List.mem_map.mpr ⟨i, hi, of_decide_eq_true hsame⟩)
    rw [hfind]
    exact hfield
  · have hfind : (before ++ i :: after).find? (·.type = type) = some i := by
      rw [List.find?_eq_some_iff_append]
      refine ⟨decide_eq_true htype, before, after, rfl, ?_⟩
      intro j hj
      have hne : j.type ≠ type := fun hsame => hfirst (List.mem_map.mpr ⟨j, hj, hsame⟩)
      simpa using hne
    rw [hfind]
    refine ⟨size before, hfield, ?_⟩
    have hlen : (encode before ++ (i.encode ++ post)).length = BLE_PAYLOAD_SIZE := by
      rw [← hpayload, Vector.length_toList]
    rw [List.length_append, List.length_append, ← size] at hlen
    rw [Memory.loadAll_eq_ok (by rw [Vector.length_toList]; omega), hpayload, size, List.drop_left,
      List.take_left]

/-- A reference parser reads the items that were copied. -/
lemma Copied.readable (h : Copied source s items rest) : ∀ i ∈ items, i.Encodable ∧ i.type ≠ 0 :=
  fun i hi => ⟨h.encodable i hi, h.fields.types i hi⟩

/-- What the loop leaves out is what it has left over. -/
lemma Copied.dropped_iff {ret : ℤ} (h : Copied source s items rest)
    (hends : Ends source bytes (size items) ret) (hsource : source.length = bytes.toNat)
    (hsize : bytes.toNat ≤ BLE_PAYLOAD_SIZE) :
    Dropped source ↔ DroppedBehind items rest := by
  constructor
  · rintro ⟨items', rest', hsplit, hzero, hdropped⟩
    have hshort : 1 ≤ rest'.length ∧ rest'.length ≤ 2 := by
      rcases hdropped with ⟨b, rfl, -⟩ | ⟨length, type, rfl, -⟩ <;> simp
    have hlen := congrArg List.length hsplit
    rw [List.length_append, ← size] at hlen
    have hbytes := bytes.isLt
    have hencodable : ∀ i ∈ items', i.Encodable :=
      Ltv.encodable_of_size (n := 255) (by omega) le_rfl
    rcases Ltv.encode_append_cases h.encodable hencodable (h.source_eq.symm.trans hsplit) with
      ⟨more, rfl, hmore⟩ | ⟨i, more, rfl, hmore⟩
    · cases more with
      | nil =>
        obtain rfl : rest = rest' := hmore
        rwa [List.append_nil] at hdropped
      | cons i more =>
        -- the loop does not stop in front of a complete field with bytes behind it
        have hi := List.mem_append_right items (List.mem_cons_self (a := i) (l := more))
        rw [encode_cons, List.append_assoc] at hmore
        have hstop := h.ends_item hends hsource hmore (hzero i hi) (hencodable i hi)
        rw [size_append, size_cons] at hlen
        unfold BLE_PAYLOAD_SIZE at *
        omega
    · -- the loop has gone past the two bytes, so they are not the end
      exfalso
      have hrest := congrArg List.length hmore
      rw [List.length_append, ← size, size_cons] at hrest
      have hmoreSize := Ltv.length_le_size more
      have hmoreNil : more = [] := List.eq_nil_of_length_eq_zero (by omega)
      have hvalue : i.value = [] := List.eq_nil_of_length_eq_zero (by omega)
      have hrestNil : rest = [] := List.eq_nil_of_length_eq_zero (by omega)
      apply h.ended hrestNil items' i.type
      rw [hmoreNil, ← hvalue]
  · intro hdropped
    exact ⟨items, rest, h.source_eq, h.fields.types, hdropped⟩

/-- The fields that were copied are read alike; the rest of the source decides. -/
lemma Copied.reads_iff {ret : ℤ} (h : Copied source s items rest)
    (hset : setPayload source bytes = .ok (ret, s)) :
    ReadsAsReference source bytes ↔ (ret = 0 ↔ ∃ more, Parses rest more) ∧
      (ret = 0 → ∀ more, Parses rest more → ∀ type ≠ 0, Finds s (items ++ more) type) := by
  -- what a parser reads begins with the items that were copied
  have hparses : ∀ items', Parses source items' ↔
      ∃ more, items' = items ++ more ∧ Parses rest more := by
    intro items'
    rw [h.source_eq]
    constructor
    · exact Ltv.Parses.of_append h.readable
    · rintro ⟨more, rfl, hmore⟩
      exact Ltv.parses_append h.readable hmore
  unfold ReadsAsReference
  simp only [hset, Except.ok.injEq, Prod.mk.injEq, hparses]
  constructor
  · rintro ⟨_, _, ⟨rfl, rfl⟩, hret, hfinds⟩
    exact ⟨hret.trans ⟨fun ⟨_, more, _, hmore⟩ => ⟨more, hmore⟩,
      fun ⟨more, hmore⟩ => ⟨_, more, rfl, hmore⟩⟩,
      fun hzero more hmore => hfinds hzero _ ⟨more, rfl, hmore⟩⟩
  · rintro ⟨hret, hfinds⟩
    refine ⟨ret, s, ⟨rfl, rfl⟩, hret.trans ⟨fun ⟨more, hmore⟩ => ⟨_, more, rfl, hmore⟩,
      fun ⟨_, more, _, hmore⟩ => ⟨more, hmore⟩⟩, ?_⟩
    rintro hzero _ ⟨more, rfl, hmore⟩
    exact hfinds hzero more hmore

/-- Behind the fields comes nothing that can be found. -/
lemma Copied.reads_of_trailer (h : Copied source s items rest)
    (hset : setPayload source bytes = .ok (0, s)) (hrest : Ltv.Trailer rest) :
    ReadsAsReference source bytes := by
  rw [h.reads_iff hset]
  refine ⟨iff_of_true rfl ⟨[], hrest.parses⟩, fun _ more hmore type _ => ?_⟩
  rw [hmore.unique hrest.parses, List.append_nil]
  exact finds_fields h.fields type

/-- A field without a value at the very end is read alike if another of its type comes first. -/
lemma Copied.reads_valueless_iff {type : Byte} (h : Copied source s items [1, type])
    (hset : setPayload source bytes = .ok (0, s)) (hzero : type ≠ 0) :
    ReadsAsReference source bytes ↔ type ∈ items.map Item.type := by
  have hparses := Ltv.parses_valueless hzero
  rw [h.reads_iff hset]
  constructor
  -- the parser finds the item without a value, and `field` finds nothing
  · rintro ⟨-, hfinds⟩
    by_contra htype
    have hfound := hfinds rfl _ hparses type hzero
    have hmissed := finds_fields h.fields type
    unfold Finds at hfound hmissed
    have hnone : items.find? (·.type = type) = none := by
      rw [List.find?_eq_none]
      intro i hi hsame
      exact htype (List.mem_map.mpr ⟨i, hi, of_decide_eq_true hsame⟩)
    rw [hnone] at hmissed
    rw [List.find?_append, hnone] at hfound
    simp only [List.find?_cons, decide_true, Option.none_or] at hfound
    obtain ⟨start, hfield, -⟩ := hfound
    rw [hmissed] at hfield
    cases hfield
  -- an earlier item of the type hides the one that was dropped
  · intro htype
    refine ⟨iff_of_true rfl ⟨_, hparses⟩, fun _ more hmore type' _ => ?_⟩
    rw [hmore.unique hparses]
    have hsame : (items ++ [(⟨type, []⟩ : Item)]).find? (·.type = type') =
        items.find? (·.type = type') := by
      rw [List.find?_append]
      by_cases htype' : type = type'
      · obtain ⟨i, hi, hitype⟩ := List.mem_map.mp htype
        have hsome : (items.find? (·.type = type')).isSome := by
          rw [List.find?_isSome]
          exact ⟨i, hi, decide_eq_true (hitype.trans htype')⟩
        obtain ⟨j, hj⟩ := Option.isSome_iff_exists.mp hsome
        rw [hj, Option.some_or]
      · simp [htype']
    unfold Finds
    rw [hsame]
    exact finds_fields h.fields type'

/-- Two bytes behind the items are dropped, unless they say nothing new. -/
lemma droppedBehind_pair {length type : Byte} : DroppedBehind items [length, type] ↔
    type ≠ 0 ∧ (length = 1 → type ∉ items.map Item.type) := by
  unfold DroppedBehind
  constructor
  · rintro (⟨b, hb, -⟩ | ⟨length', type', heq, h⟩)
    · cases hb
    · cases heq
      exact h
  · exact fun h => .inr ⟨length, type, rfl, h⟩

/-- What is not a list of items to the end is not read alike if 0 is returned. -/
lemma Copied.not_reads (h : Copied source s items rest)
    (hset : setPayload source bytes = .ok (0, s)) (hrest : ∀ more, ¬Parses rest more) :
    ¬ReadsAsReference source bytes := by
  intro hreads
  obtain ⟨more, hmore⟩ := ((h.reads_iff hset).mp hreads).1.mp rfl
  exact hrest more hmore

/-- One byte is left. -/
lemma Copied.reads_single_iff {b : Byte} (h : Copied source s items [b])
    (hset : setPayload source bytes = .ok (0, s)) :
    ReadsAsReference source bytes ↔ ¬DroppedBehind items [b] := by
  by_cases hb : b = 0
  · subst hb
    exact iff_of_true (h.reads_of_trailer hset (.zeros 1)) (by simp [DroppedBehind])
  · have hdropped : DroppedBehind items [b] := .inl ⟨b, rfl, hb⟩
    exact iff_of_false (h.not_reads hset fun _ => Ltv.not_parses_singleton hb)
      (not_not.mpr hdropped)

/-- Two bytes are left. -/
lemma Copied.reads_pair_iff {length type : Byte} (h : Copied source s items [length, type])
    (hset : setPayload source bytes = .ok (0, s)) :
    ReadsAsReference source bytes ↔ ¬DroppedBehind items [length, type] := by
  rw [droppedBehind_pair]
  by_cases hzero : type = 0
  · subst hzero
    exact iff_of_true (h.reads_of_trailer hset (.typeZero length [])) (by simp)
  by_cases hone : length = 1
  · subst hone
    rw [h.reads_valueless_iff hset hzero]
    exact ⟨fun h hnot => hnot.2 rfl h, fun h => by_contra fun hnot => h ⟨hzero, fun _ => hnot⟩⟩
  · have hne : length.toNat ≠ 1 := fun h => hone (BitVec.eq_of_toNat_eq h)
    have hrest : ∀ more, ¬Parses [length, type] more := fun more =>
      Ltv.not_parses_incomplete hzero (by rw [List.length_nil]; omega)
    exact iff_of_false (h.not_reads hset hrest) (not_not.mpr ⟨hzero, fun h => absurd h hone⟩)

/-- **The parser is the reference parser**, and `field` looks up what it reads, exactly if it does
not leave out what stands in the last two bytes of its source. -/
theorem setPayload_parses_iff (hsource : source.length = bytes.toNat)
    (hsize : bytes.toNat ≤ BLE_PAYLOAD_SIZE) :
    ReadsAsReference source bytes ↔ ¬Dropped source := by
  rcases setPayload_outcome hsource with ⟨ret, s, items, rest, hset, hcopied, hends⟩ |
    ⟨⟨before, i, tail, hsplit, -, -, hlong⟩, -⟩
  swap
  · have hlen := congrArg List.length hsplit
    rw [List.length_append, ← size] at hlen
    omega
  rw [hcopied.dropped_iff hends hsource hsize]
  have hlen := hcopied.length
  cases hends with
  -- at most two bytes are left
  | short hshort =>
    have hrest : rest.length = 0 ∨ rest.length = 1 ∨ rest.length = 2 := by
      unfold BLE_PAYLOAD_SIZE at *
      omega
    rcases hrest with hnil | hone | htwo
    · obtain rfl := List.eq_nil_of_length_eq_zero hnil
      exact iff_of_true (hcopied.reads_of_trailer hset .none) (by simp [DroppedBehind])
    · obtain ⟨b, rfl⟩ := List.length_eq_one_iff.mp hone
      exact hcopied.reads_single_iff hset
    · obtain ⟨length, type, rfl⟩ := List.length_eq_two.mp htwo
      exact hcopied.reads_pair_iff hset
  -- a type of zero ends the advertisement
  | typeZero htype =>
    obtain ⟨length, tail, rfl⟩ := rest_of_loadAt hcopied.source_eq htype
    refine iff_of_true (hcopied.reads_of_trailer hset (.typeZero length tail)) ?_
    rintro (⟨b, hb, -⟩ | ⟨length', type', heq, hne, -⟩)
    · cases hb
    · cases heq
      exact hne rfl
  -- the loop refuses what a parser refuses
  | @refused length type hround hlength htype hzero hrefused =>
    have hrest : rest = length :: type :: source.drop (size items + 2) := by
      rw [← hcopied.drop_size, Memory.drop_of_loadAt hlength, Memory.drop_of_loadAt htype]
    have hdrop : (source.drop (size items + 2)).length + 2 = rest.length := by
      rw [hrest]
      rfl
    have hnot : ∀ more, ¬Parses rest more := fun more => by
      rw [hrest]
      exact Ltv.not_parses_incomplete hzero (by omega)
    refine iff_of_true ((hcopied.reads_iff hset).mpr ⟨iff_of_false (by decide) ?_, ?_⟩) ?_
    · rintro ⟨more, hmore⟩
      exact hnot more hmore
    · exact fun h => absurd h (by decide)
    · rintro (⟨b, rfl, -⟩ | ⟨length', type', rfl, -⟩)
      · simp only [List.length_singleton] at hlen
        omega
      · simp only [List.length_cons, List.length_nil] at hlen
        omega

theorem setPayload_parses_iff_flags :
    ReadsAsReference [0x02, 0x01, 0x06] 3 ↔ ¬Dropped [0x02, 0x01, 0x06] :=
  setPayload_parses_iff (by decide) (by decide)

/-- A field without a value that ends the source cannot be found. -/
theorem setPayload_parses_lost : ¬ReadsAsReference [0x01, 0x09] 2 := by
  rintro ⟨ret, s, hset, -, hfinds⟩
  have hreturns : setPayload [0x01, 0x09] 2 = .ok (0, fresh) := by decide
  rw [hreturns] at hset
  cases hset
  obtain ⟨start, hfield, -⟩ := hfinds rfl _ (Ltv.parses_valueless (by decide)) 0x09 (by decide)
  have hnone : field fresh 0x09 = .ok none := by decide
  rw [hnone] at hfield
  cases hfield

end Gap
end Vng
