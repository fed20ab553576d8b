import Vng.Coap.OptionParse
import Vng.Coap.Pdu

/-!
# Parsing a received CoAP message

`coap_pdu_parse` copies what was received into the buffer of the message and walks over the options
there. `coap_handle_message` gives the buffer the size of what was received.
-/

namespace Vng.Libcoap

open Memory OptionList CoapMessage

/-- The loop of `coap_pdu_parse` over the options: where it stops, and how much is left there. Each
round needs a byte. -/
def walk (memory : List Byte) : (fuel opt length : ℕ) → Checked (Option (ℕ × ℕ))
  | 0, _, _ => .error .diverges
  | fuel + 1, opt, length =>
    if length = 0 then .ok (some (opt, length)) else do
      let byte ← loadAt memory opt
      if byte = marker then .ok (some (opt, length)) else
        match ← coapOptParse memory opt length with
        | none => .ok none
        | some (size, _) => walk memory fuel (opt + size) (length - size)

/-- The message in `pdu`; `none` where the source discards it. -/
def coapPduParse {maxSize : ℕ} (data : List Byte) (pdu : Pdu maxSize) :
    Checked (Option (Pdu maxSize)) :=
  if maxSize < data.length then .ok none else do
    -- a message that is too short is only reported here
    let first ← loadAt data 0
    let code ← loadAt data 1
    let hdr ← storeAll pdu.hdr 0 [first, code]
    if code = 0 ∧ (data.length ≠ 4 ∨ tokenLength first ≠ 0) then .ok none
    else if data.length < 4 + tokenLength first ∨ 8 < tokenLength first then .ok none
    else do
      let id ← loadAll data 2 2
      let hdr ← storeAll hdr 2 id
      let hdr ← storeAll hdr 4 (data.drop 4)
      let start := 4 + tokenLength first
      match ← walk hdr.toList (data.length - start + 1) start (data.length - start) with
      | none => .ok none
      | some (opt, length) =>
        if length = 0 then .ok (some { pdu with hdr := hdr, length := data.length, data := none })
        -- the payload marker
        else if length - 1 = 0 then .ok none
        else .ok (some { pdu with hdr := hdr, length := data.length, data := some (opt + 1) })

/-- `coap_handle_message` up to the message that it dispatches. -/
def coapHandleMessage (msg : List Byte) : Checked (Option (Pdu msg.length)) :=
  if msg.length < 4 then .ok none else do
    let first ← loadAt msg 0
    -- `COAP_DEFAULT_VERSION`
    if first.toNat / 64 ≠ 1 then .ok none else
      match ← coapPduInit 0 0 0 msg.length with
      | none => .ok none
      | some pdu => coapPduParse msg pdu

/-! ## The walk over the options -/

/-- No distance is refused. -/
def Walkable (items : List Item) : Prop := ∀ i ∈ items, i.delta < 65549

section Walk

variable {memory rest : List Byte} {opt length fuel : ℕ} {items : List Item} {i : Item}

lemma walkable_cons : Walkable (i :: items) ↔ i.delta < 65549 ∧ Walkable items :=
  List.forall_mem_cons

/-- The first option of a walk. -/
lemma coapOptParse_encode (hmemory : opt + length ≤ memory.length)
    (hbytes : (memory.drop opt).take length = i.encode ++ rest) (hi : i.delta < 65549) :
    ∃ o, coapOptParse memory opt length = .ok (some (i.encode.length, o)) ∧
      (memory.drop (opt + i.encode.length)).take (length - i.encode.length) = rest := by
  refine ⟨_, (coapOptParse_eq_ok_some_iff hmemory).mpr
    ⟨i.delta, i.value, rest, hbytes, hi, i.length_le, rfl, rfl⟩, ?_⟩
  have hdrop := congrArg (List.drop i.encode.length) hbytes
  rwa [List.drop_left, List.drop_take, List.drop_drop] at hdrop

/-- What is not an option in front stops the walk, or is refused. -/
lemma walk_stop (hmemory : opt + length ≤ memory.length)
    (hends : Ends ((memory.drop opt).take length)) (hfuel : fuel ≠ 0) :
    walk memory fuel opt length = .ok (some (opt, length)) := by
  obtain ⟨fuel, rfl⟩ := Nat.exists_eq_succ_of_ne_zero hfuel
  rw [walk]
  rcases hends with hnil | ⟨payload, hmarker⟩
  · have hlength := congrArg List.length hnil
    rw [List.length_take, List.length_drop, List.length_nil] at hlength
    rw [if_pos (by omega)]
  · obtain ⟨hload, -⟩ := loadAt_of_drop_take hmarker
    have hlength := congrArg List.length hmarker
    rw [List.length_take, List.length_cons] at hlength
    rw [if_neg (by omega), hload, ok_bind, if_pos rfl]

/-- One round. -/
lemma walk_option {bytes : List Byte} (hne : bytes ≠ [])
    (hbytes : (memory.drop opt).take length = bytes) (hends : ¬ Ends bytes) :
    walk memory (fuel + 1) opt length = (coapOptParse memory opt length >>= fun r =>
      match r with
      | none => .ok none
      | some (size, _) => walk memory fuel (opt + size) (length - size)) := by
  obtain ⟨b, tail, rfl⟩ := List.exists_cons_of_ne_nil hne
  obtain ⟨hload, -⟩ := loadAt_of_drop_take hbytes
  have hlength := congrArg List.length hbytes
  rw [List.length_take, List.length_cons] at hlength
  have hmarker : b ≠ marker := by
    rintro rfl
    exact hends (.inr ⟨tail, rfl⟩)
  rw [walk, if_neg (by omega), hload, ok_bind, if_neg hmarker]

/-- A walk goes over the options to what ends them. -/
lemma walk_encode (hmemory : opt + length ≤ memory.length)
    (hbytes : (memory.drop opt).take length = encode items ++ rest) (hitems : Walkable items)
    (hfuel : length < fuel) :
    ∃ fuel', rest.length < fuel' ∧ walk memory fuel opt length =
      walk memory fuel' (opt + (encode items).length) rest.length ∧
      (memory.drop (opt + (encode items).length)).take rest.length = rest := by
  induction items generalizing opt length fuel with
  | nil =>
    rw [encode_nil, List.nil_append] at hbytes
    have hlength := congrArg List.length hbytes
    rw [List.length_take, List.length_drop] at hlength
    obtain rfl : length = rest.length := by omega
    exact ⟨fuel, hfuel, rfl, hbytes⟩
  | cons i items ih =>
    obtain ⟨hi, hitems⟩ := walkable_cons.mp hitems
    rw [encode_cons, List.append_assoc] at hbytes
    have hlength := congrArg List.length hbytes
    rw [List.length_take, List.length_drop, List.length_append] at hlength
    have hpos := length_encode_pos i
    obtain ⟨o, hparse, hnext⟩ := coapOptParse_encode hmemory hbytes hi
    obtain ⟨fuel, rfl⟩ := Nat.exists_eq_succ_of_ne_zero (show fuel ≠ 0 by omega)
    obtain ⟨fuel', hfuel', hwalk, hrest⟩ :=
      ih (show opt + i.encode.length + (length - i.encode.length) ≤ memory.length by omega) hnext
        hitems (show length - i.encode.length < fuel by omega)
    refine ⟨fuel', hfuel', ?_, ?_⟩
    · rw [walk_option (List.append_ne_nil_of_left_ne_nil (encode_ne_nil i) _) hbytes
        (not_ends_encode i _), hparse, ok_bind, encode_cons, List.length_append, ← Nat.add_assoc]
      exact hwalk
    · rw [encode_cons, List.length_append, ← Nat.add_assoc]
      exact hrest

/-- What stops a walk without ending the options: nothing that is taken for an option. -/
def Stuck (rest : List Byte) : Prop :=
  ¬ Ends rest ∧ ∀ delta value rest', readOne rest = some (delta, value, rest') → ¬ delta < 65549

/-- Every buffer is options, and then something that stops the walk. -/
lemma exists_walkable (bytes : List Byte) :
    ∃ items rest, bytes = encode items ++ rest ∧ Walkable items ∧ (Ends rest ∨ Stuck rest) := by
  induction hn : bytes.length using Nat.strong_induction_on generalizing bytes with
  | _ n ih =>
    by_cases hstop : Ends bytes ∨ Stuck bytes
    · exact ⟨[], bytes, rfl, List.forall_mem_nil _, hstop⟩
    · rw [not_or, Stuck, not_and] at hstop
      have hread := hstop.2 hstop.1
      push Not at hread
      obtain ⟨delta, value, rest, hread, hsmall⟩ := hread
      obtain ⟨hdelta, hvalue, rfl⟩ := readOne_eq_some_iff.mp hread
      have hpos : 0 < (encodeOne delta value).length := by rw [length_encodeOne]; omega
      rw [List.length_append] at hn
      obtain ⟨items, rest', rfl, hitems, hend⟩ := ih rest.length (by omega) rest rfl
      exact ⟨⟨delta, value, hdelta, hvalue⟩ :: items, rest',
        by rw [encode_cons, List.append_assoc]; rfl, walkable_cons.mpr ⟨hsmall, hitems⟩, hend⟩

/-- A walk that is stuck discards the message, unless it reads on behind the buffer. -/
lemma walk_stuck (hmemory : opt + length ≤ memory.length)
    (hstuck : Stuck ((memory.drop opt).take length)) (hfuel : fuel ≠ 0) :
    (Overrun memory opt length → walk memory fuel opt length = .error .outOfBounds) ∧
      (¬ Overrun memory opt length → walk memory fuel opt length = .ok none) := by
  obtain ⟨fuel, rfl⟩ := Nat.exists_eq_succ_of_ne_zero hfuel
  have hne : (memory.drop opt).take length ≠ [] := fun h => hstuck.1 (.inl h)
  obtain ⟨herror, hok⟩ := coapOptParse_cases hmemory
  constructor
  · intro hover
    rw [walk_option hne rfl hstuck.1, herror hover]
    rfl
  · intro hover
    rw [walk_option hne rfl hstuck.1, hok hover, ok_bind]
    cases hread : readOne ((memory.drop opt).take length) with
    | none => rfl
    | some r => simp only [if_neg (hstuck.2 r.1 r.2.1 r.2.2 hread)]

lemma not_ends_of_cutOff (h : CutOff rest) : ¬ Ends rest := by
  rintro (rfl | ⟨payload, rfl⟩)
  · exact h
  · rcases h with h | ⟨delta, rest', h, -⟩
    · exact h
    · cases h

lemma stuck_of_cutOff (h : CutOff rest) : Stuck rest :=
  ⟨not_ends_of_cutOff h, fun _ _ _ hread => absurd h (not_cutOff_of_readOne hread)⟩

/-- **Where the walk ends.** It ends behind the last option, at the payload or at the end of the
message. -/
theorem walk_eq_ok_some_iff (hmemory : opt + length ≤ memory.length) (hfuel : length < fuel)
    {opt' length' : ℕ} :
    walk memory fuel opt length = .ok (some (opt', length')) ↔
      ∃ items rest, (memory.drop opt).take length = encode items ++ rest ∧ Walkable items ∧
        Ends rest ∧ opt' = opt + (encode items).length ∧ length' = rest.length := by
  constructor
  · intro h
    obtain ⟨items, rest, hbytes, hitems, hend⟩ := exists_walkable ((memory.drop opt).take length)
    obtain ⟨fuel', hfuel', hwalk, hrest⟩ := walk_encode hmemory hbytes hitems hfuel
    have hlength := congrArg List.length hbytes
    rw [List.length_take, List.length_drop, List.length_append] at hlength
    have hmemory' : opt + (encode items).length + rest.length ≤ memory.length := by omega
    rw [hwalk] at h
    rcases hend with hend | hstuck
    · rw [walk_stop hmemory' (hrest.symm ▸ hend) (by omega)] at h
      obtain ⟨rfl, rfl⟩ := Prod.mk.inj (Option.some.inj (Except.ok.inj h))
      exact ⟨items, rest, hbytes, hitems, hend, rfl, rfl⟩
    · obtain ⟨herror, hok⟩ := walk_stuck hmemory' (hrest.symm ▸ hstuck) (show fuel' ≠ 0 by omega)
      by_cases hover : Overrun memory (opt + (encode items).length) rest.length
      · rw [herror hover] at h
        cases h
      · rw [hok hover] at h
        cases h
  · rintro ⟨items, rest, hbytes, hitems, hend, rfl, rfl⟩
    obtain ⟨fuel', hfuel', hwalk, hrest⟩ := walk_encode hmemory hbytes hitems hfuel
    have hlength := congrArg List.length hbytes
    rw [List.length_take, List.length_drop, List.length_append] at hlength
    rw [hwalk, walk_stop (by omega) (hrest.symm ▸ hend) (by omega)]

/-- **Where the walk leaves the buffer.** It does where the buffer ends in the header of an
option. -/
theorem succeeds_walk_iff (hmemory : opt + length ≤ memory.length) (hfuel : length < fuel) :
    Succeeds (walk memory fuel opt length) ↔
      ¬ (opt + length = memory.length ∧ ∃ items rest,
        (memory.drop opt).take length = encode items ++ rest ∧ Walkable items ∧ CutOff rest) := by
  constructor
  · rintro h ⟨hend, items, rest, hbytes, hitems, hcut⟩
    obtain ⟨fuel', hfuel', hwalk, hrest⟩ := walk_encode hmemory hbytes hitems hfuel
    have hlength := congrArg List.length hbytes
    rw [List.length_take, List.length_drop, List.length_append] at hlength
    have hmemory' : opt + (encode items).length + rest.length ≤ memory.length := by omega
    have hstuck := walk_stuck hmemory' (hrest.symm ▸ stuck_of_cutOff hcut)
      (show fuel' ≠ 0 by omega)
    rw [hwalk, hstuck.1 ⟨by omega, hrest.symm ▸ hcut⟩] at h
    exact not_succeeds_error _ h
  · intro hnot
    obtain ⟨items, rest, hbytes, hitems, hend⟩ := exists_walkable ((memory.drop opt).take length)
    obtain ⟨fuel', hfuel', hwalk, hrest⟩ := walk_encode hmemory hbytes hitems hfuel
    have hlength := congrArg List.length hbytes
    rw [List.length_take, List.length_drop, List.length_append] at hlength
    have hmemory' : opt + (encode items).length + rest.length ≤ memory.length := by omega
    rw [hwalk]
    rcases hend with hend | hstuck
    · rw [walk_stop hmemory' (hrest.symm ▸ hend) (by omega)]
      exact succeeds_ok _
    · rw [(walk_stuck hmemory' (hrest.symm ▸ hstuck) (show fuel' ≠ 0 by omega)).2]
      · exact succeeds_ok _
      · rintro ⟨hover, hcut⟩
        exact hnot ⟨by omega, items, rest, hbytes, hitems, hrest ▸ hcut⟩

end Walk

/-! ## The message -/

section Message

variable {maxSize : ℕ} {pdu pdu' : Pdu maxSize} {data rest : List Byte} {a b c d : Byte}
  {m : Message}

/-- What is written piece by piece is the message. -/
lemma exists_copy (pdu : Pdu maxSize) (hsize : (a :: b :: c :: d :: rest).length ≤ maxSize) :
    ∃ hdr₁ hdr₂ hdr, storeAll pdu.hdr 0 [a, b] = .ok hdr₁ ∧ storeAll hdr₁ 2 [c, d] = .ok hdr₂ ∧
      storeAll hdr₂ 4 rest = .ok hdr ∧
      hdr.toList = (a :: b :: c :: d :: rest) ++
        pdu.hdr.toList.drop (a :: b :: c :: d :: rest).length := by
  obtain ⟨hdr, hstore, hlist⟩ := storeAll_front pdu.hdr hsize
  have hsplit : a :: b :: c :: d :: rest = ([a, b] ++ [c, d]) ++ rest := rfl
  rw [hsplit, storeAll_append, storeAll_append] at hstore
  obtain ⟨hdr₂, hstore₂, hstore₃⟩ := bind_eq_ok_iff.mp hstore
  obtain ⟨hdr₁, hstore₁, hstore₂⟩ := bind_eq_ok_iff.mp hstore₂
  exact ⟨hdr₁, hdr₂, hdr, hstore₁, hstore₂, hstore₃, hlist⟩

lemma drop_copy (data : List Byte) {hdr : Vector Byte maxSize} {old : List Byte} {k : ℕ}
    (hk : k ≤ data.length) (hlist : hdr.toList = data ++ old) :
    (hdr.toList.drop k).take (data.length - k) = data.drop k := by
  rw [hlist, List.drop_append_of_le_length hk,
    List.take_append_of_le_length (by rw [List.length_drop]),
    List.take_of_length_le (by rw [List.length_drop])]

/-- What is left to do once the token length is known to fit. -/
lemma coapPduParse_run (pdu : Pdu maxSize) (hsize : (a :: b :: c :: d :: rest).length ≤ maxSize)
    (hempty : b = 0 → rest = [] ∧ tokenLength a = 0) (htoken : tokenLength a ≤ rest.length)
    (height : tokenLength a ≤ 8) :
    ∃ hdr : Vector Byte maxSize,
      hdr.toList = (a :: b :: c :: d :: rest) ++
        pdu.hdr.toList.drop (a :: b :: c :: d :: rest).length ∧
      coapPduParse (a :: b :: c :: d :: rest) pdu =
        (walk hdr.toList (rest.length - tokenLength a + 1) (4 + tokenLength a)
            (rest.length - tokenLength a) >>= fun r =>
          match r with
          | none => .ok none
          | some (opt, length) =>
            if length = 0 then
              .ok (some { pdu with
                hdr := hdr, length := (a :: b :: c :: d :: rest).length, data := none })
            else if length - 1 = 0 then .ok none
            else .ok (some { pdu with
              hdr := hdr, length := (a :: b :: c :: d :: rest).length,
              data := some (opt + 1) })) := by
  obtain ⟨hdr₁, hdr₂, hdr, h₁, h₂, h₃, hlist⟩ := exists_copy pdu hsize
  refine ⟨hdr, hlist, ?_⟩
  have hlength : (a :: b :: c :: d :: rest).length = rest.length + 4 := rfl
  have hfuel : (a :: b :: c :: d :: rest).length - (4 + tokenLength a) =
      rest.length - tokenLength a := by omega
  have hnotEmpty : ¬ (b = 0 ∧ ((a :: b :: c :: d :: rest).length ≠ 4 ∨ tokenLength a ≠ 0)) := by
    rintro ⟨hb, hwrong⟩
    obtain ⟨rfl, hzero⟩ := hempty hb
    exact hwrong.elim (fun h => h rfl) fun h => h hzero
  rw [coapPduParse, if_neg (by omega)]
  show (storeAll pdu.hdr 0 [a, b] >>= _) = _
  rw [h₁, ok_bind, if_neg hnotEmpty, if_neg (by omega)]
  show (storeAll hdr₁ 2 [c, d] >>= _) = _
  rw [h₂, ok_bind]
  show (storeAll hdr₂ 4 rest >>= _) = _
  rw [h₃, ok_bind, ← hfuel]

/-- Header and token do not fit together, or do not fit what was received. -/
lemma coapPduParse_refuse (hsize : (a :: b :: c :: d :: rest).length ≤ maxSize)
    (h : b = 0 ∧ (rest.length ≠ 0 ∨ tokenLength a ≠ 0) ∨ rest.length < tokenLength a ∨
      8 < tokenLength a) :
    coapPduParse (a :: b :: c :: d :: rest) pdu = .ok none := by
  obtain ⟨hdr₁, hdr₂, hdr, h₁, -⟩ := exists_copy pdu hsize
  have hlength : (a :: b :: c :: d :: rest).length = rest.length + 4 := rfl
  rw [coapPduParse, if_neg (by omega)]
  show (storeAll pdu.hdr 0 [a, b] >>= _) = _
  rw [h₁, ok_bind]
  split_ifs with hempty hshort
  · rfl
  · rfl
  · rcases h with ⟨hb, hwrong⟩ | hwrong
    · exact absurd ⟨hb, hwrong.imp_left fun _ => by omega⟩ hempty
    · omega

/-- A message shorter than its header is discarded, if not before that read beyond. -/
lemma coapPduParse_short (h : data.length < 4) : coapPduParse data pdu ≠ .ok (some pdu') := by
  intro hrun
  rw [coapPduParse] at hrun
  split_ifs at hrun with hmax
  · cases hrun
  · obtain ⟨first, -, hrun⟩ := bind_eq_ok_iff.mp hrun
    obtain ⟨code, -, hrun⟩ := bind_eq_ok_iff.mp hrun
    obtain ⟨hdr, -, hrun⟩ := bind_eq_ok_iff.mp hrun
    split_ifs at hrun with hempty hshort
    · cases hrun
    · cases hrun
    · omega

/-- What the message is parsed into. -/
structure Received (pdu pdu' : Pdu maxSize) (m : Message) : Prop where
  hdr : pdu'.hdr.toList = m.encode ++ pdu.hdr.toList.drop m.encode.length
  maxDelta : pdu'.maxDelta = pdu.maxDelta
  length : pdu'.length = m.encode.length
  data : pdu'.data =
    if m.payload = [] then none else some (m.encode.length - m.payload.length)

lemma tokenLength_firstByte (m : Message) :
    tokenLength (firstByte m.version m.type m.token.length) = m.token.length := firstByte_mod m

/-- A message whose distances are not refused is parsed. -/
lemma coapPduParse_encode (pdu : Pdu maxSize) (hsize : m.encode.length ≤ maxSize)
    (hitems : Walkable m.items) (hempty : m.code = 0 → m.encode.length = 4) :
    ∃ pdu', coapPduParse m.encode pdu = .ok (some pdu') ∧ Received pdu pdu' m := by
  have htoken := tokenLength_firstByte m
  have hlength := length_encode m
  obtain ⟨hdr, hlist, hrun⟩ := coapPduParse_run pdu hsize
    (fun hcode => by
      have := hempty hcode
      rw [htoken]
      exact ⟨List.eq_nil_of_length_eq_zero (by rw [List.length_append]; omega), by omega⟩)
    (by rw [htoken, List.length_append]; omega) (htoken.le.trans m.token_le)
  have hrest : (m.token ++ m.body).length - m.token.length = m.body.length := by
    rw [List.length_append, Nat.add_sub_cancel_left]
  have hdrop : (hdr.toList.drop (4 + m.token.length)).take m.body.length = m.body := by
    have hcopy := drop_copy m.encode (show 4 + m.token.length ≤ m.encode.length by omega) hlist
    have hbody : m.encode.drop (4 + m.token.length) = m.body := by
      rw [← List.drop_drop]
      exact List.drop_left
    rwa [hbody, show m.encode.length - (4 + m.token.length) = m.body.length by omega] at hcopy
  have hwalk : walk hdr.toList (m.body.length + 1) (4 + m.token.length) m.body.length =
      .ok (some (4 + m.token.length + (encode m.items).length,
        (payloadPart m.payload).length)) := by
    rw [walk_eq_ok_some_iff _ (Nat.lt_succ_self _)]
    · exact ⟨m.items, payloadPart m.payload, hdrop, hitems, ends_payloadPart _, rfl, rfl⟩
    · rw [Vector.length_toList]
      omega
  rw [htoken, hrest, hwalk, ok_bind] at hrun
  have hbody : m.body.length = (encode m.items).length + (payloadPart m.payload).length :=
    List.length_append
  have hpayload := length_payloadPart m.payload
  by_cases hnil : m.payload = []
  · rw [if_pos hnil] at hpayload
    refine ⟨_, hrun.trans (if_pos hpayload), hlist, rfl, rfl, ?_⟩
    rw [if_pos hnil]
  · have hpos := List.length_pos_of_ne_nil hnil
    rw [if_neg hnil] at hpayload
    refine ⟨_, hrun.trans ((if_neg (by omega)).trans (if_neg (by omega))), hlist, rfl, rfl, ?_⟩
    rw [if_neg hnil, Option.some.injEq]
    omega

lemma Received.unique {pdu'' : Pdu maxSize} (h : Received pdu pdu' m) (h' : Received pdu pdu'' m) :
    pdu' = pdu'' := by
  have hhdr : pdu'.hdr = pdu''.hdr := Vector.toList_inj.mp (h.hdr.trans h'.hdr.symm)
  have hdelta := h.maxDelta.trans h'.maxDelta.symm
  have hlength := h.length.trans h'.length.symm
  have hdata := h.data.trans h'.data.symm
  cases pdu'
  cases pdu''
  simp_all only

/-- What is parsed is a message. -/
lemma exists_message (hsize : (a :: b :: c :: d :: rest).length ≤ maxSize)
    (hparse : coapPduParse (a :: b :: c :: d :: rest) pdu = .ok (some pdu')) :
    ∃ m : Message, a :: b :: c :: d :: rest = m.encode ∧ Walkable m.items ∧
      (m.code = 0 → m.encode.length = 4) := by
  by_cases hrefuse : b = 0 ∧ (rest.length ≠ 0 ∨ tokenLength a ≠ 0) ∨
      rest.length < tokenLength a ∨ 8 < tokenLength a
  · rw [coapPduParse_refuse hsize hrefuse] at hparse
    cases hparse
  · push Not at hrefuse
    obtain ⟨hempty, htoken, height⟩ := hrefuse
    obtain ⟨hdr, hlist, hrun⟩ := coapPduParse_run pdu hsize
      (fun hb => ⟨List.eq_nil_of_length_eq_zero (hempty hb).1, (hempty hb).2⟩) htoken height
    rw [hrun] at hparse
    obtain ⟨r, hwalk, hparse⟩ := bind_eq_ok_iff.mp hparse
    cases r with
    | none => cases hparse
    | some r =>
      obtain ⟨opt, length⟩ := r
      have hmemory : 4 + tokenLength a + (rest.length - tokenLength a) ≤ hdr.toList.length := by
        rw [Vector.length_toList]
        simp only [List.length_cons] at hsize
        omega
      obtain ⟨items, tail, hbytes, hitems, hends, -, hlength⟩ :=
        (walk_eq_ok_some_iff hmemory (Nat.lt_succ_self _)).mp hwalk
      have hcopy := drop_copy (a :: b :: c :: d :: rest) (k := 4 + tokenLength a)
        (by simp only [List.length_cons]; omega) hlist
      have hshift : (a :: b :: c :: d :: rest).length - (4 + tokenLength a) =
          rest.length - tokenLength a := by
        simp only [List.length_cons]
        omega
      rw [hshift, hbytes, ← List.drop_drop] at hcopy
      have hrest : rest = rest.take (tokenLength a) ++ (encode items ++ tail) := by
        rw [hcopy]
        exact (List.take_append_drop _ rest).symm
      have hlengthToken : (rest.take (tokenLength a)).length = tokenLength a :=
        List.length_take_of_le htoken
      obtain ⟨payload, htail⟩ : ∃ payload, tail = payloadPart payload := by
        rcases hends with rfl | ⟨payload, rfl⟩
        · exact ⟨[], rfl⟩
        · have hne : payload ≠ [] := by
            rintro rfl
            rw [hlength] at hparse
            cases hparse
          exact ⟨payload, (if_neg hne).symm⟩
      obtain ⟨m, hm, -, rfl, rfl, -⟩ :=
        exists_encode_eq b c d hlengthToken (hlengthToken.le.trans height) items payload
      rw [← htail, ← hrest] at hm
      refine ⟨m, hm, hitems, fun hb => ?_⟩
      exact (congrArg List.length hm).symm.trans (congrArg (· + 4) (hempty hb).1)

/-- **What `coap_pdu_parse` accepts.** It accepts the messages whose distances are not refused, an
empty one only without anything behind its header, and finds in each what was put into it. -/
theorem coapPduParse_eq_ok_some_iff :
    coapPduParse data pdu = .ok (some pdu') ↔
      data.length ≤ maxSize ∧ ∃ m : Message, data = m.encode ∧ Walkable m.items ∧
        (m.code = 0 → m.encode.length = 4) ∧ Received pdu pdu' m := by
  constructor
  · intro hparse
    have hsize : data.length ≤ maxSize := by
      by_contra hlarge
      rw [coapPduParse, if_pos (not_le.mp hlarge)] at hparse
      cases hparse
    have hlong : 4 ≤ data.length := by
      by_contra hshort
      exact coapPduParse_short (not_le.mp hshort) hparse
    obtain ⟨a, b, c, d, rest, rfl⟩ := exists_header hlong
    obtain ⟨m, hm, hitems, hempty⟩ := exists_message hsize hparse
    rw [hm] at hsize hparse ⊢
    obtain ⟨pdu'', hparse', hreceived⟩ := coapPduParse_encode pdu hsize hitems hempty
    rw [hparse', Except.ok.injEq, Option.some.injEq] at hparse
    exact ⟨hsize, m, rfl, hitems, hempty, hparse ▸ hreceived⟩
  · rintro ⟨hsize, m, rfl, hitems, hempty, hreceived⟩
    obtain ⟨pdu'', hparse, hreceived'⟩ := coapPduParse_encode pdu hsize hitems hempty
    rw [hparse, hreceived'.unique hreceived]

/-- The options of the message go on to a header that is cut off. -/
def EndsInHeader (data : List Byte) : Prop :=
  ∃ a b c d token items rest, data = a :: b :: c :: d :: (token ++ (encode items ++ rest)) ∧
    token.length = tokenLength a ∧ tokenLength a ≤ 8 ∧ b ≠ 0 ∧ Walkable items ∧ CutOff rest

/-- **Where `coap_pdu_parse` leaves the buffer.** With a message that fills the buffer it reads
behind it exactly where the message ends in the header of an option. -/
theorem succeeds_coapPduParse_iff (hsize : data.length ≤ maxSize) (hheader : 4 ≤ data.length) :
    Succeeds (coapPduParse data pdu) ↔ ¬ (data.length = maxSize ∧ EndsInHeader data) := by
  obtain ⟨a, b, c, d, rest, rfl⟩ : ∃ a b c d rest, data = a :: b :: c :: d :: rest := by
    match data, hheader with
    | a :: b :: c :: d :: rest, _ => exact ⟨a, b, c, d, rest, rfl⟩
  by_cases hrefuse : b = 0 ∧ (rest.length ≠ 0 ∨ tokenLength a ≠ 0) ∨
      rest.length < tokenLength a ∨ 8 < tokenLength a
  · rw [coapPduParse_refuse hsize hrefuse]
    refine iff_of_true (succeeds_ok _) ?_
    rintro ⟨-, a', b', c', d', token, items, rest', heq, htoken, height, hb, -, -⟩
    simp only [List.cons.injEq] at heq
    obtain ⟨rfl, rfl, rfl, rfl, rfl⟩ := heq
    rw [List.length_append] at hrefuse
    rcases hrefuse with ⟨hzero, -⟩ | hlong | hlong
    · exact hb hzero
    · omega
    · omega
  · push Not at hrefuse
    obtain ⟨hempty, htoken, height⟩ := hrefuse
    obtain ⟨hdr, hlist, hrun⟩ := coapPduParse_run pdu hsize
      (fun hb => ⟨List.eq_nil_of_length_eq_zero (hempty hb).1, (hempty hb).2⟩) htoken height
    have hlength : (a :: b :: c :: d :: rest).length = rest.length + 4 := rfl
    have hcopy := drop_copy (a :: b :: c :: d :: rest) (k := 4 + tokenLength a) (by omega) hlist
    have hdrop : (a :: b :: c :: d :: rest).drop (4 + tokenLength a) =
        rest.drop (tokenLength a) := by
      rw [← List.drop_drop]
      rfl
    rw [hdrop, show (a :: b :: c :: d :: rest).length - (4 + tokenLength a) =
      rest.length - tokenLength a by omega] at hcopy
    have hmemory : 4 + tokenLength a + (rest.length - tokenLength a) ≤ hdr.toList.length := by
      rw [Vector.length_toList]
      omega
    have hwalk := succeeds_walk_iff hmemory (Nat.lt_succ_self _)
    rw [hcopy, Vector.length_toList] at hwalk
    have hcontinue : Succeeds (coapPduParse (a :: b :: c :: d :: rest) pdu) ↔
        Succeeds (walk hdr.toList (rest.length - tokenLength a + 1) (4 + tokenLength a)
          (rest.length - tokenLength a)) := by
      rw [hrun, succeeds_bind_iff]
      constructor
      · rintro ⟨r, hr, -⟩
        exact ⟨r, hr⟩
      · rintro ⟨r, hr⟩
        refine ⟨r, hr, ?_⟩
        cases r with
        | none => exact succeeds_ok _
        | some r =>
          dsimp only
          split_ifs <;> exact succeeds_ok _
    rw [hcontinue, hwalk, not_iff_not]
    constructor
    · rintro ⟨hend, items, rest', hbytes, hitems, hcut⟩
      refine ⟨by omega, a, b, c, d, rest.take (tokenLength a), items, rest', ?_,
        List.length_take_of_le htoken, height, ?_, hitems, hcut⟩
      · rw [← hbytes, List.take_append_drop]
      · intro hb
        rw [List.eq_nil_of_length_eq_zero (hempty hb).1, List.drop_nil] at hbytes
        rw [(List.append_eq_nil_iff.mp hbytes.symm).2] at hcut
        exact hcut
    · rintro ⟨hend, a', b', c', d', token, items, rest', heq, htoken', -, -, hitems, hcut⟩
      simp only [List.cons.injEq] at heq
      obtain ⟨rfl, rfl, rfl, rfl, rfl⟩ := heq
      exact ⟨by omega, items, rest', by rw [← htoken', List.drop_left], hitems, hcut⟩

/-- The buffer of a received message. -/
lemma exists_coapPduInit {n : ℕ} (hheader : 4 ≤ n) (hn : n ≤ maxPduSize) :
    ∃ pdu, coapPduInit 0 0 0 n = .ok (some pdu) := by
  obtain ⟨pdu, -, hinit, -⟩ :=
    exists_head 0 0 0 hn (show ([] : List Byte).length ≤ 8 from Nat.zero_le _) hheader
  exact ⟨pdu, hinit⟩

/-- The version that a datagram starts with is `COAP_DEFAULT_VERSION`. -/
def VersionOne (msg : List Byte) : Prop := ∃ first, msg.head? = some first ∧ first.toNat / 64 = 1

/-- The checks before a datagram is parsed. -/
def Accepted (msg : List Byte) : Prop :=
  4 ≤ msg.length ∧ msg.length ≤ maxPduSize ∧ VersionOne msg

lemma coapHandleMessage_of_accepted {msg : List Byte} (h : Accepted msg) :
    ∃ pdu : Pdu msg.length, coapHandleMessage msg = coapPduParse msg pdu := by
  obtain ⟨hheader, hsize, first, hfirst, hversion⟩ := h
  obtain ⟨pdu, hinit⟩ := exists_coapPduInit hheader hsize
  have hload : loadAt msg 0 = .ok first := loadAt_eq_ok (List.head?_eq_getElem?.symm.trans hfirst)
  refine ⟨pdu, ?_⟩
  rw [coapHandleMessage, if_neg (by omega), hload, ok_bind, if_neg (not_not.mpr hversion), hinit]
  rfl

/-- The buffer is asked for before the datagram is looked at any further. -/
lemma coapHandleMessage_of_large {msg : List Byte} (hlarge : maxPduSize < msg.length)
    (hversion : VersionOne msg) : coapHandleMessage msg = .error .assertion := by
  obtain ⟨first, hfirst, hone⟩ := hversion
  have hload : loadAt msg 0 = .ok first := loadAt_eq_ok (List.head?_eq_getElem?.symm.trans hfirst)
  have hheader : ¬ msg.length < 4 := by
    unfold maxPduSize at hlarge
    omega
  rw [coapHandleMessage, if_neg hheader, hload, ok_bind, if_neg (not_not.mpr hone), coapPduInit,
    if_pos hlarge]
  rfl

lemma coapHandleMessage_of_refused {msg : List Byte} (h : ¬ Accepted msg)
    (hsize : ¬ (maxPduSize < msg.length ∧ VersionOne msg)) : coapHandleMessage msg = .ok none := by
  rw [coapHandleMessage]
  split_ifs with hshort
  · rfl
  · obtain ⟨first, rest, rfl⟩ := List.exists_cons_of_length_pos (show 0 < msg.length by omega)
    show (if first.toNat / 64 ≠ 1 then _ else _) = _
    -- of version 1 the datagram would be parsed, or larger than the assertion lets through
    have hversion : first.toNat / 64 ≠ 1 := fun hone =>
      have hone : VersionOne (first :: rest) := ⟨first, rfl, hone⟩
      h ⟨not_lt.mp hshort, not_lt.mp fun hlarge => hsize ⟨hlarge, hone⟩, hone⟩
    rw [if_pos hversion]

/-- **What a datagram is taken for.** `coap_handle_message` parses the datagrams that are messages
of version 1 with distances that are not refused. Of the others, those of version 1 that end in the
header of an option make it read behind its buffer, and those of version 1 that are larger than the
greatest message make the assertion of `coap_pdu_init` fail. -/
theorem coapHandleMessage_iff {msg : List Byte} :
    ((∃ pdu, coapHandleMessage msg = .ok (some pdu)) ↔
      msg.length ≤ maxPduSize ∧ ∃ m : Message, msg = m.encode ∧ m.version = 1 ∧ Walkable m.items ∧
        (m.code = 0 → m.encode.length = 4)) ∧
    (Succeeds (coapHandleMessage msg) ↔
      ¬ (msg.length ≤ maxPduSize ∧ VersionOne msg ∧ EndsInHeader msg) ∧
        ¬ (maxPduSize < msg.length ∧ VersionOne msg)) ∧
    (maxPduSize < msg.length → VersionOne msg → coapHandleMessage msg = .error .assertion) := by
  have hencoded {m : Message} (hversion : m.version = 1) : VersionOne m.encode :=
    ⟨_, Message.head?_encode m, (firstByte_div m).trans hversion⟩
  refine ⟨?_, ?_, coapHandleMessage_of_large⟩
  · by_cases haccepted : Accepted msg
    · obtain ⟨pdu, hrun⟩ := coapHandleMessage_of_accepted haccepted
      obtain ⟨-, hsize, first, hfirst, hversion⟩ := haccepted
      simp only [hrun, coapPduParse_eq_ok_some_iff]
      constructor
      · rintro ⟨pdu', -, m, rfl, hitems, hempty, -⟩
        refine ⟨hsize, m, rfl, ?_, hitems, hempty⟩
        rw [Message.head?_encode, Option.some.injEq] at hfirst
        rw [← firstByte_div m, hfirst, hversion]
      · rintro ⟨-, m, rfl, -, hitems, hempty⟩
        obtain ⟨pdu', -, hreceived⟩ := coapPduParse_encode pdu le_rfl hitems hempty
        exact ⟨pdu', le_rfl, m, rfl, hitems, hempty, hreceived⟩
    · refine iff_of_false ?_ ?_
      · rintro ⟨pdu, hrun⟩
        by_cases hlarge : maxPduSize < msg.length ∧ VersionOne msg
        · rw [coapHandleMessage_of_large hlarge.1 hlarge.2] at hrun
          cases hrun
        · rw [coapHandleMessage_of_refused haccepted hlarge] at hrun
          cases hrun
      · rintro ⟨hsize, m, rfl, hversion, -, -⟩
        refine haccepted ⟨?_, hsize, hencoded hversion⟩
        rw [length_encode, Nat.add_assoc]
        exact Nat.le_add_right _ _
  · by_cases hlarge : maxPduSize < msg.length ∧ VersionOne msg
    · rw [coapHandleMessage_of_large hlarge.1 hlarge.2]
      exact iff_of_false (not_succeeds_error _) fun h => h.2 hlarge
    by_cases haccepted : Accepted msg
    · obtain ⟨pdu, hrun⟩ := coapHandleMessage_of_accepted haccepted
      obtain ⟨hheader, hsize, hversion⟩ := haccepted
      rw [hrun, succeeds_coapPduParse_iff le_rfl hheader]
      constructor
      · exact fun hends => ⟨fun h => hends ⟨rfl, h.2.2⟩, hlarge⟩
      · exact fun h hends => h.1 ⟨hsize, hversion, hends.2⟩
    · rw [coapHandleMessage_of_refused haccepted hlarge]
      refine iff_of_true (succeeds_ok _) ⟨?_, hlarge⟩
      rintro ⟨hsize, hversion, a, b, c, d, token, items, rest, rfl, -⟩
      exact haccepted ⟨Nat.le_add_left _ _, hsize, hversion⟩

end Message

end Vng.Libcoap
