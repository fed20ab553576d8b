import Vng.Coap.Filter
import Vng.Coap.PduParse

/-!
# Going over the options of a message

`coap_option_next` steps over the options that the filter leaves out. The number of an option is the
sum of the distances up to it, kept in 16 bits.
-/

namespace Vng.Libcoap

open Memory OptionList CoapMessage

/-- `coap_opt_iterator_t`; nothing is filtered where `filter` is `none`. -/
structure Iterator where
  nextOption : ℕ
  length : ℕ
  type : Word
  bad : Bool
  filter : Option OptFilter
deriving DecidableEq, Repr

def coapOptionIteratorInit {n : ℕ} (pdu : Pdu n) (filter : Option OptFilter) :
    Checked Iterator := do
  let first ← loadAt pdu.hdr.toList 0
  let start := 4 + tokenLength first
  if pdu.length ≤ start then .ok ⟨start, 0, 0, true, none⟩
  else .ok ⟨start, pdu.length - start, 0, false, filter⟩

/-- `opt_finished`. -/
def optFinished (memory : List Byte) (oi : Iterator) : Checked Bool :=
  if oi.bad ∨ oi.length = 0 then .ok true else do
    let byte ← loadAt memory oi.nextOption
    .ok (byte = marker)

/-- `coap_option_getb` with the filter of the iterator; its result is never negative. -/
def passes (filter : Option OptFilter) (type : Word) : Bool :=
  match filter with
  | none => true
  | some f => 0 < coapOptionFilterGet f type

/-- The loop of `coap_option_next`. -/
def nextLoop (memory : List Byte) : ℕ → Iterator → Checked (Option ℕ × Iterator)
  | 0, _ => .error .diverges
  | fuel + 1, oi => do
    match ← coapOptParse memory oi.nextOption oi.length with
    | none => .ok (none, { oi with bad := true })
    | some (optsize, option) =>
      let next := { oi with
        nextOption := oi.nextOption + optsize
        length := oi.length - optsize
        type := oi.type + BitVec.ofNat 16 option.delta }
      if passes next.filter next.type then .ok (some oi.nextOption, next)
      else nextLoop memory fuel next

/-- The place of the next option; `none` where the source returns `NULL`. -/
def coapOptionNext (memory : List Byte) (oi : Iterator) : Checked (Option ℕ × Iterator) := do
  if ← optFinished memory oi then .ok (none, { oi with bad := true })
  else nextLoop memory (oi.length + 1) oi

/-- The bytes that a nibble of the header says are behind it. -/
def skipped (nibble : ℕ) : ℕ := if nibble = 14 then 2 else if nibble = 13 then 1 else 0

def coapOptLength (memory : List Byte) (opt : ℕ) : Checked ℕ := do
  let first ← loadAt memory opt
  let length := first.toNat % 16
  if first.toNat / 16 = 15 ∨ length = 15 then .ok 0 else
    let opt := opt + 1 + skipped (first.toNat / 16)
    if length = 14 then do
      let hi ← loadAt memory opt
      let lo ← loadAt memory (opt + 1)
      .ok (((hi.toNat * 256 + 269) % 65536 + lo.toNat) % 65536)
    else if length = 13 then do
      let byte ← loadAt memory opt
      .ok (13 + byte.toNat)
    else .ok length

/-- `none` where the source returns 0. -/
def coapOptValue (memory : List Byte) (opt : ℕ) : Checked (Option ℕ) := do
  let first ← loadAt memory opt
  if first.toNat / 16 = 15 ∨ first.toNat % 16 = 15 then .ok none
  else .ok (some (opt + 1 + skipped (first.toNat / 16) + skipped (first.toNat % 16)))

/-- `COAP_OPT_LENGTH(option)` bytes from `COAP_OPT_VALUE(option)` on. -/
def optBytes (memory : List Byte) (opt : ℕ) : Checked (List Byte) := do
  let length ← coapOptLength memory opt
  match ← coapOptValue memory opt with
  | none => .ok []
  | some value => loadAll memory value length

/-- `while (coap_option_next(&opt_iter))`; the body gets `opt_iter.type` and the option. -/
def whileNext {γ : Type} (memory : List Byte) (body : γ → Word → ℕ → Checked γ) :
    ℕ → Iterator → γ → Checked γ
  | 0, _, _ => .error .diverges
  | fuel + 1, oi, acc => do
    match ← coapOptionNext memory oi with
    | (none, _) => .ok acc
    | (some opt, oi) => do
      let acc ← body acc oi.type opt
      whileNext memory body fuel oi acc

/-- The loop over the options of a message, from its first one on. -/
def forOptions {γ : Type} {n : ℕ} (pdu : Pdu n) (filter : Option OptFilter)
    (body : γ → Word → ℕ → Checked γ) (acc : γ) : Checked γ := do
  let oi ← coapOptionIteratorInit pdu filter
  whileNext pdu.hdr.toList body (oi.length + 1) oi acc

/-- All that such a loop can see. -/
def options {n : ℕ} (pdu : Pdu n) (filter : Option OptFilter) :
    Checked (List (Word × List Byte)) :=
  forOptions pdu filter
    (fun acc type opt => do
      let bytes ← optBytes pdu.hdr.toList opt
      .ok (acc ++ [(type, bytes)])) []

/-- With a filter of one number. -/
def coapCheckOption {n : ℕ} (pdu : Pdu n) (type : Word) : Checked (Option ℕ × Iterator) := do
  let oi ← coapOptionIteratorInit pdu (some (coapOptionFilterSet .cleared type).1)
  coapOptionNext pdu.hdr.toList oi

/-! ## One option -/

section Option

variable {memory rest value : List Byte} {opt delta v : ℕ}

lemma skipped_nibble (v : ℕ) : skipped (nibble v) = (extension v).length := by
  rw [length_extension]
  unfold skipped nibble
  split_ifs <;> omega

lemma drop_encodeOne (h : memory.drop opt = encodeOne delta value ++ rest) :
    loadAt memory opt = .ok (header delta value.length) ∧
      memory.drop (opt + 1) = extension delta ++ (extension value.length ++ (value ++ rest)) := by
  have h' : memory.drop opt =
      header delta value.length ::
        (extension delta ++ (extension value.length ++ (value ++ rest))) := by
    rw [h, encodeOne]
    simp only [List.cons_append, List.append_assoc]
  exact loadAt_of_drop h'

/-- The length of an option is kept in 16 bits. -/
lemma coapOptLength_encodeOne (h : memory.drop opt = encodeOne delta value ++ rest)
    (hvalue : value.length ≤ maxField) :
    coapOptLength memory opt = .ok (value.length % 65536) := by
  unfold maxField at hvalue
  obtain ⟨hfirst, hbehind⟩ := drop_encodeOne h
  have hdelta := nibble_lt_fifteen delta
  have hlength := nibble_lt_fifteen value.length
  have hext := drop_append_of_drop hbehind
  rw [coapOptLength, hfirst, ok_bind]
  dsimp only
  rw [header_div, header_mod, skipped_nibble, if_neg (by omega)]
  generalize opt + 1 + (extension delta).length = place at hext
  generalize value.length = length at *
  obtain hsmall | ⟨hlarge, hbyte⟩ | hword :
      length < 13 ∨ 13 ≤ length ∧ length < 269 ∨ 269 ≤ length := by omega
  -- the length stands in the nibble
  · have hn : nibble length = length := if_pos hsmall
    rw [hn, if_neg (by omega), if_neg (by omega), Nat.mod_eq_of_lt (by omega)]
  -- it stands in the byte behind the number
  · rw [extension, if_neg (by omega), if_pos hbyte] at hext
    obtain ⟨hload, -⟩ := loadAt_of_drop hext
    have hn : nibble length = 13 := by rw [nibble, if_neg (by omega), if_pos hbyte]
    rw [hn, if_neg (by decide), if_pos rfl, hload, ok_bind, BitVec.toNat_ofNat]
    exact congrArg Except.ok (by omega)
  -- it stands in a word, with the upper byte in front
  · rw [extension, if_neg (by omega), if_neg (by omega)] at hext
    obtain ⟨hhi, hnext⟩ := loadAt_of_drop hext
    obtain ⟨hlo, -⟩ := loadAt_of_drop hnext
    have hn : nibble length = 14 := by rw [nibble, if_neg (by omega), if_neg (by omega)]
    rw [hn, if_pos rfl, hhi, ok_bind, hlo, ok_bind, BitVec.toNat_ofNat, BitVec.toNat_ofNat]
    exact congrArg Except.ok (by omega)

lemma coapOptValue_encodeOne (h : memory.drop opt = encodeOne delta value ++ rest) :
    ∃ place, coapOptValue memory opt = .ok (some place) ∧
      place + value.length = opt + (encodeOne delta value).length ∧
      memory.drop place = value ++ rest := by
  obtain ⟨hfirst, hbehind⟩ := drop_encodeOne h
  have hdelta := nibble_lt_fifteen delta
  have hlength := nibble_lt_fifteen value.length
  refine ⟨opt + 1 + (extension delta).length + (extension value.length).length, ?_, ?_, ?_⟩
  · rw [coapOptValue, hfirst, ok_bind, if_neg (by rw [header_div, header_mod]; omega), header_div,
      header_mod, skipped_nibble, skipped_nibble]
  · rw [length_encodeOne]
    omega
  · exact drop_append_of_drop (drop_append_of_drop hbehind)

/-- An option with these bytes stands at the place. -/
def Stands (memory : List Byte) (opt : ℕ) (value : List Byte) : Prop :=
  value.length < 65536 ∧ ∃ delta rest, memory.drop opt = encodeOne delta value ++ rest

lemma Stands.optBytes (h : Stands memory opt value) : optBytes memory opt = .ok value := by
  obtain ⟨hvalue, delta, rest, h⟩ := h
  obtain ⟨place, hplace, hend, hdrop⟩ := coapOptValue_encodeOne h
  have hlength := congrArg List.length h
  rw [List.length_drop, List.length_append, length_encodeOne] at hlength
  rw [length_encodeOne] at hend
  rw [Libcoap.optBytes, coapOptLength_encodeOne h (by unfold maxField; omega), ok_bind, hplace,
    ok_bind, Nat.mod_eq_of_lt hvalue]
  exact loadAll_of_drop hdrop (by omega)

end Option

/-! ## All options -/

/-- The options by their numbers, as far as 16 bits hold them. -/
def wrapped (number : ℕ) (items : List Item) : List (Word × List Byte) :=
  (numbered number items).map fun o => (BitVec.ofNat 16 o.1, o.2)

/-- The iterator stands in front of `items`. -/
structure Iterator.Before (memory : List Byte) (oi : Iterator) (number : ℕ) (items : List Item)
    (rest : List Byte) : Prop where
  good : oi.bad = false
  type : oi.type = BitVec.ofNat 16 number
  inside : oi.nextOption + oi.length ≤ memory.length
  bytes : (memory.drop oi.nextOption).take oi.length = encode items ++ rest
  walkable : Walkable items
  ends : Ends rest

section Next

variable {memory rest : List Byte} {oi : Iterator} {number fuel : ℕ} {items : List Item} {i : Item}

lemma wrapped_cons : wrapped number (i :: items) =
    (BitVec.ofNat 16 (number + i.delta), i.value) :: wrapped (number + i.delta) items := rfl

/-- What ends the options is not taken for one. -/
lemma coapOptParse_ends {opt length : ℕ} (h : Ends ((memory.drop opt).take length))
    (hmemory : opt + length ≤ memory.length) : coapOptParse memory opt length = .ok none := by
  rcases h with hnil | ⟨payload, hmarker⟩
  · have hlength := congrArg List.length hnil
    rw [List.length_take, List.length_drop, List.length_nil] at hlength
    rw [coapOptParse, if_pos (by omega)]
  · obtain ⟨hload, -⟩ := loadAt_of_drop_take hmarker
    have hlength := congrArg List.length hmarker
    rw [List.length_take, List.length_cons] at hlength
    rw [coapOptParse, if_neg (by omega), hload, ok_bind]
    rfl

/-- The iterator behind the first option. -/
def Iterator.behind (oi : Iterator) (i : Item) : Iterator :=
  { oi with
    nextOption := oi.nextOption + i.encode.length
    length := oi.length - i.encode.length
    type := oi.type + BitVec.ofNat 16 i.delta }

lemma Iterator.Before.next (h : oi.Before memory number (i :: items) rest) :
    (oi.behind i).Before memory (number + i.delta) items rest ∧
      (oi.behind i).length < oi.length ∧
      ∃ o, coapOptParse memory oi.nextOption oi.length = .ok (some (i.encode.length, o)) ∧
        o.delta = i.delta % 65536 := by
  obtain ⟨hi, hitems⟩ := walkable_cons.mp h.walkable
  have hbytes := h.bytes
  rw [encode_cons, List.append_assoc] at hbytes
  have hlength := congrArg List.length hbytes
  rw [List.length_take, List.length_append] at hlength
  have hpos := length_encode_pos i
  have hinside := h.inside
  refine ⟨⟨h.good, ?_, ?_, ?_, hitems, h.ends⟩, ?_, _,
    (coapOptParse_eq_ok_some_iff hinside).mpr
      ⟨i.delta, i.value, encode items ++ rest, hbytes, hi, i.length_le, rfl, rfl⟩, rfl⟩
  · show oi.type + BitVec.ofNat 16 i.delta = _
    rw [h.type, BitVec.ofNat_add]
  · show oi.nextOption + i.encode.length + (oi.length - i.encode.length) ≤ memory.length
    omega
  · have hdrop := congrArg (List.drop i.encode.length) hbytes
    rwa [List.drop_left, List.drop_take, List.drop_drop] at hdrop
  · show oi.length - i.encode.length < oi.length
    omega

/-- What the filter leaves of the options. -/
def kept (filter : Option OptFilter) (options : List (Word × List Byte)) :
    List (Word × List Byte) :=
  options.filter fun o => passes filter o.1

/-- The option that is stepped over. -/
lemma Iterator.Before.stands (h : oi.Before memory number (i :: items) rest)
    (hsmall : memory.length < 65536) : Stands memory oi.nextOption i.value := by
  have hbytes := h.bytes
  rw [encode_cons, List.append_assoc] at hbytes
  have hsplit := List.take_append_drop oi.length (memory.drop oi.nextOption)
  rw [hbytes, List.append_assoc] at hsplit
  have hlength := congrArg List.length hsplit
  have hvalue : i.value.length ≤ i.encode.length := by
    rw [Item.encode, length_encodeOne]
    exact Nat.le_add_left _ _
  rw [List.length_append, List.length_drop] at hlength
  exact ⟨by omega, _, _, hsplit.symm⟩

/-- One call of `coap_option_next`, from an iterator with options in front of it. -/
lemma nextLoop_spec (h : oi.Before memory number items rest) (hsmall : memory.length < 65536)
    (hfuel : oi.length < fuel) :
    (kept oi.filter (wrapped number items) = [] ∧
      ∃ oi', nextLoop memory fuel oi = .ok (none, oi')) ∨
    ∃ opt oi' bytes number' items', nextLoop memory fuel oi = .ok (some opt, oi') ∧
      oi'.Before memory number' items' rest ∧ oi'.filter = oi.filter ∧ oi'.length < oi.length ∧
      Stands memory opt bytes ∧
      kept oi.filter (wrapped number items) =
        (oi'.type, bytes) :: kept oi.filter (wrapped number' items') := by
  induction items generalizing oi number fuel with
  | nil =>
    obtain ⟨fuel, rfl⟩ := Nat.exists_eq_succ_of_ne_zero (show fuel ≠ 0 by omega)
    refine .inl ⟨rfl, { oi with bad := true }, ?_⟩
    have hends : Ends ((memory.drop oi.nextOption).take oi.length) := h.bytes.symm ▸ h.ends
    rw [nextLoop, coapOptParse_ends hends h.inside]
    rfl
  | cons i items ih =>
    obtain ⟨fuel, rfl⟩ := Nat.exists_eq_succ_of_ne_zero (show fuel ≠ 0 by omega)
    obtain ⟨hnext, hless, o, hparse, hdelta⟩ := h.next
    have hstep : nextLoop memory (fuel + 1) oi =
        if passes oi.filter (oi.behind i).type then .ok (some oi.nextOption, oi.behind i)
        else nextLoop memory fuel (oi.behind i) := by
      -- the type and the parsed distance both wrap at 16 bits
      have hword : BitVec.ofNat 16 o.delta = BitVec.ofNat 16 i.delta := by
        apply BitVec.eq_of_toNat_eq
        rw [BitVec.toNat_ofNat, BitVec.toNat_ofNat, hdelta, Nat.mod_mod]
      rw [nextLoop, hparse, ok_bind]
      dsimp only
      rw [hword]
      rfl
    have htype : (oi.behind i).type = BitVec.ofNat 16 (number + i.delta) := hnext.type
    rw [hstep, wrapped_cons]
    by_cases hpass : passes oi.filter (oi.behind i).type
    · rw [if_pos hpass]
      refine .inr ⟨_, _, i.value, _, _, rfl, hnext, rfl, hless, h.stands hsmall, ?_⟩
      rw [kept, List.filter_cons_of_pos (by rw [← htype]; exact hpass), htype]
      rfl
    -- an option that the filter leaves out is stepped over
    · rw [if_neg hpass]
      have hskip : kept oi.filter ((BitVec.ofNat 16 (number + i.delta), i.value) ::
          wrapped (number + i.delta) items) = kept oi.filter (wrapped (number + i.delta) items) :=
        List.filter_cons_of_neg (by rw [← htype]; exact hpass)
      rw [hskip]
      rcases ih hnext (show (oi.behind i).length < fuel by omega) with hnone | hsome
      · exact .inl hnone
      · obtain ⟨opt, oi', bytes, number', items', hloop, hbefore, hfilter, hless', hrest⟩ := hsome
        exact .inr ⟨opt, oi', bytes, number', items', hloop, hbefore, hfilter, hless'.trans hless,
          hrest⟩

lemma optFinished_cases (hgood : oi.bad = false)
    (hinside : oi.nextOption + oi.length ≤ memory.length) :
    Ends ((memory.drop oi.nextOption).take oi.length) ∧ optFinished memory oi = .ok true ∨
      ¬ Ends ((memory.drop oi.nextOption).take oi.length) ∧ optFinished memory oi = .ok false := by
  rw [optFinished, hgood]
  by_cases hzero : oi.length = 0
  · rw [if_pos (.inr hzero), hzero]
    exact .inl ⟨.inl rfl, rfl⟩
  · rw [if_neg (by simp [hzero])]
    obtain ⟨b, tail, htake⟩ := List.exists_cons_of_length_pos
      (show 0 < ((memory.drop oi.nextOption).take oi.length).length by
        rw [List.length_take, List.length_drop]
        omega)
    obtain ⟨hload, -⟩ := loadAt_of_drop_take htake
    rw [hload, ok_bind, htake]
    by_cases hmarker : b = marker
    · exact .inl ⟨.inr ⟨tail, by rw [hmarker]⟩, by rw [decide_eq_true hmarker]⟩
    · refine .inr ⟨?_, by rw [decide_eq_false hmarker]⟩
      rintro (hnil | ⟨payload, hcons⟩)
      · cases hnil
      · exact hmarker (List.cons.inj hcons).1

/-- `coap_option_next` delivers the next option that passes the filter. -/
lemma coapOptionNext_spec (h : oi.Before memory number items rest)
    (hsmall : memory.length < 65536) :
    (kept oi.filter (wrapped number items) = [] ∧
      ∃ oi', coapOptionNext memory oi = .ok (none, oi')) ∨
    ∃ opt oi' bytes number' items', coapOptionNext memory oi = .ok (some opt, oi') ∧
      oi'.Before memory number' items' rest ∧ oi'.filter = oi.filter ∧ oi'.length < oi.length ∧
      Stands memory opt bytes ∧
      kept oi.filter (wrapped number items) =
        (oi'.type, bytes) :: kept oi.filter (wrapped number' items') := by
  rcases optFinished_cases h.good h.inside with ⟨hends, hfinished⟩ | ⟨-, hfinished⟩
  · left
    refine ⟨?_, _, by rw [coapOptionNext, hfinished]; rfl⟩
    -- an option begins neither with the marker nor at the end
    cases items with
    | nil => rfl
    | cons i items =>
      rw [h.bytes, encode_cons, List.append_assoc] at hends
      exact absurd hends (not_ends_encode i _)
  · have hcontinue : coapOptionNext memory oi = nextLoop memory (oi.length + 1) oi := by
      rw [coapOptionNext, hfinished]
      rfl
    rw [hcontinue]
    exact nextLoop_spec h hsmall (Nat.lt_succ_self _)

/-- **Loops over the options.** What the body does with an option wherever it stands, the loop does
with the options that pass the filter, one after another. -/
theorem whileNext_eq {γ : Type} {body : γ → Word → ℕ → Checked γ}
    {g : γ → Word × List Byte → Checked γ}
    (hbody : ∀ acc type opt bytes, Stands memory opt bytes →
      body acc type opt = g acc (type, bytes))
    (h : oi.Before memory number items rest) (hsmall : memory.length < 65536)
    (hfuel : oi.length < fuel) (acc : γ) :
    whileNext memory body fuel oi acc = (kept oi.filter (wrapped number items)).foldlM g acc := by
  induction fuel generalizing oi number items acc with
  | zero => omega
  | succ fuel ih =>
    rw [whileNext]
    rcases coapOptionNext_spec h hsmall with ⟨hnone, oi', hnext⟩ |
      ⟨opt, oi', bytes, number', items', hnext, hbefore, hfilter, hless, hstands, hkept⟩
    · rw [hnext, hnone]
      rfl
    · rw [hnext, ok_bind, hkept, List.foldlM_cons]
      dsimp only
      rw [hbody _ _ _ _ hstands]
      refine bind_congr fun acc' => ?_
      rw [ih hbefore (by omega), hfilter]

end Next

section Message

variable {maxSize : ℕ} {pdu pdu' : Pdu maxSize} {m : Message} {filter : Option OptFilter}

/-- The first byte of a received message. -/
lemma Received.load_first (h : Received pdu pdu' m) :
    loadAt pdu'.hdr.toList 0 = .ok (firstByte m.version m.type m.token.length) := by
  have hlist : pdu'.hdr.toList = firstByte m.version m.type m.token.length :: (m.encode.tail ++
      pdu.hdr.toList.drop m.encode.length) := h.hdr
  rw [hlist]
  rfl

lemma Received.drop_body (h : Received pdu pdu' m) :
    pdu'.hdr.toList.drop (4 + m.token.length) =
      m.body ++ pdu.hdr.toList.drop m.encode.length := by
  have hle : 4 + m.token.length ≤ m.encode.length := by
    rw [length_encode]
    exact Nat.le_add_right _ _
  rw [h.hdr, List.drop_append_of_le_length hle, ← List.drop_drop]
  congr 1
  exact List.drop_left

lemma Received.length_le (h : Received pdu pdu' m) : m.encode.length ≤ maxSize := by
  have hlength := congrArg List.length h.hdr
  rw [Vector.length_toList, List.length_append] at hlength
  omega

/-- The iterator stands in front of the options, unless there is nothing behind the token. -/
lemma coapOptionIteratorInit_spec (h : Received pdu pdu' m) (hitems : Walkable m.items)
    (filter : Option OptFilter) :
    ∃ oi, coapOptionIteratorInit pdu' filter = .ok oi ∧
      (m.items = [] ∧ coapOptionNext pdu'.hdr.toList oi = .ok (none, oi) ∨
        oi.filter = filter ∧ oi.Before pdu'.hdr.toList 0 m.items (payloadPart m.payload)) := by
  have hlength := length_encode m
  have hsize := h.length_le
  have hbodyLength : m.body.length = (encode m.items).length + (payloadPart m.payload).length :=
    List.length_append
  rw [coapOptionIteratorInit, h.load_first, ok_bind]
  dsimp only
  rw [tokenLength_firstByte, h.length]
  by_cases hbody : m.body.length = 0
  -- nothing behind the token: the iterator is marked as bad at once
  · refine ⟨_, if_pos (by omega), .inl ⟨?_, rfl⟩⟩
    cases hitem : m.items with
    | nil => rfl
    | cons i items =>
      have hpos := length_encode_pos i
      rw [hitem, encode_cons, List.length_append] at hbodyLength
      omega
  · refine ⟨_, if_neg (by omega), .inr ⟨rfl, rfl, rfl, ?_, ?_, hitems, ends_payloadPart _⟩⟩
    · rw [Vector.length_toList]
      dsimp only
      omega
    · dsimp only
      rw [h.drop_body, show m.encode.length - (4 + m.token.length) = m.body.length by omega,
        List.take_left]
      rfl

lemma length_hdr_lt (pdu : Pdu maxSize) : pdu.hdr.toList.length < 65536 := by
  rw [Vector.length_toList]
  exact pdu.maxSize_le.trans_lt (by decide)

/-- The loop over the options of a received message. -/
lemma forOptions_eq_foldlM {γ : Type} {body : γ → Word → ℕ → Checked γ}
    {g : γ → Word × List Byte → Checked γ} (h : Received pdu pdu' m) (hitems : Walkable m.items)
    (hbody : ∀ acc type opt bytes, Stands pdu'.hdr.toList opt bytes →
      body acc type opt = g acc (type, bytes)) (acc : γ) :
    forOptions pdu' filter body acc = (kept filter (wrapped 0 m.items)).foldlM g acc := by
  obtain ⟨oi, hinit, ⟨hnil, hnone⟩ | ⟨hfilter, hbefore⟩⟩ :=
    coapOptionIteratorInit_spec h hitems filter
  · rw [forOptions, hinit, ok_bind, whileNext, hnone, hnil]
    rfl
  · rw [forOptions, hinit, ok_bind,
      whileNext_eq hbody hbefore (length_hdr_lt pdu') (Nat.lt_succ_self _), hfilter]

lemma forOptions_eq_foldl {γ : Type} {body : γ → Word → ℕ → Checked γ}
    {g : γ → Word × List Byte → γ} (h : Received pdu pdu' m) (hitems : Walkable m.items)
    (hbody : ∀ acc type opt bytes, Stands pdu'.hdr.toList opt bytes →
      body acc type opt = .ok (g acc (type, bytes))) (acc : γ) :
    forOptions pdu' filter body acc = .ok ((kept filter (wrapped 0 m.items)).foldl g acc) := by
  rw [forOptions_eq_foldlM (g := fun acc o => .ok (g acc o)) h hitems hbody]
  exact List.foldlM_pure

/-- **The options of a received message.** They are seen as far as they pass the filter, in their
order. -/
theorem options_eq (h : Received pdu pdu' m) (hitems : Walkable m.items) :
    options pdu' filter = .ok (kept filter (wrapped 0 m.items)) := by
  rw [options, forOptions_eq_foldl (g := fun acc o => acc ++ [o]) h hitems]
  · rw [List.foldl_append_eq_append, List.nil_append]
    exact congrArg Except.ok (List.flatMap_singleton' _)
  · intro acc type opt bytes hstands
    rw [hstands.optBytes]
    rfl

/-- A filter answers for the set that it holds. -/
lemma passes_some_iff {f : OptFilter} {numbers : Finset Word} (h : Represents f numbers)
    (type : Word) : passes (some f) type = true ↔ type ∈ numbers := by
  obtain ⟨-, hget⟩ := represents_op h type .get
  rw [passes, coapOptionFilterGet, hget, opOnNumbers]
  by_cases hmem : type ∈ numbers <;> simp [hmem]

lemma represents_single (type : Word) :
    Represents (coapOptionFilterSet .cleared type).1 {type} := by
  obtain ⟨hset, -⟩ := represents_op represents_cleared type .set
  have hroom : (opOnNumbers ∅ type .set).1 = {type} := by
    rw [opOnNumbers, if_pos (.inr (by split_ifs <;> simp))]
    rfl
  rwa [hroom] at hset

/-- **Asking for an option.** `coap_check_option` finds the first option of the message with the
number, if there is one. -/
theorem coapCheckOption_spec (h : Received pdu pdu' m) (hitems : Walkable m.items) (type : Word) :
    ∃ opt oi, coapCheckOption pdu' type = .ok (opt, oi) ∧
      ((wrapped 0 m.items).filter (fun o => decide (o.1 = type)) = [] ∧ opt = none ∨
        ∃ place bytes others, (wrapped 0 m.items).filter (fun o => decide (o.1 = type)) =
            (type, bytes) :: others ∧
          opt = some place ∧ Stands pdu'.hdr.toList place bytes) := by
  have hkept : (wrapped 0 m.items).filter (fun o => decide (o.1 = type)) =
      kept (some (coapOptionFilterSet .cleared type).1) (wrapped 0 m.items) := by
    refine List.filter_congr fun o _ => ?_
    rw [Bool.eq_iff_iff, decide_eq_true_iff, passes_some_iff (represents_single type) _,
      Finset.mem_singleton]
  obtain ⟨oi, hinit, ⟨hnil, hnone⟩ | ⟨hfilter, hbefore⟩⟩ :=
    coapOptionIteratorInit_spec h hitems (some (coapOptionFilterSet .cleared type).1)
  · exact ⟨none, oi, by rw [coapCheckOption, hinit, ok_bind, hnone], .inl ⟨by rw [hnil]; rfl, rfl⟩⟩
  · rw [hkept, ← hfilter]
    rcases coapOptionNext_spec hbefore (length_hdr_lt pdu') with ⟨hnone, oi', hnext⟩ |
      ⟨place, oi', bytes, number', items', hnext, -, -, -, hbytes, hcons⟩
    · exact ⟨none, oi', by rw [coapCheckOption, hinit, ok_bind, hnext], .inl ⟨hnone, rfl⟩⟩
    · refine ⟨some place, oi', by rw [coapCheckOption, hinit, ok_bind, hnext], .inr ?_⟩
      -- the filter lets nothing through but this type
      have htype : oi'.type = type := by
        have hmem : (oi'.type, bytes) ∈ kept oi.filter (wrapped 0 m.items) := by
          rw [hcons]
          exact List.mem_cons_self
        rw [hfilter, ← hkept, List.mem_filter, decide_eq_true_iff] at hmem
        exact hmem.2
      rw [htype] at hcons
      exact ⟨place, bytes, _, hcons, rfl, hbytes⟩

end Message

end Vng.Libcoap
