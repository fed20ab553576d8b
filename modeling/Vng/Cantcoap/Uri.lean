import Vng.Cantcoap.Validate
import Vng.Coap.RoundTrip

/-!
# Options and URI of a message that was accepted

`getOptions` finds the options of the message one after another, and `getURI` puts those of the path
and of the query together, each with the separator that may have to stand behind it.
-/

namespace Vng.Cantcoap

open Memory OptionList CoapMessage Libcoap

/-! ## The options -/

section Options

variable {pdu rest data stale : List Byte} {items : List Item} {pos number : ℕ} {s : CoapPdu}
  {m : Message}

/-- An entry of the list stands for an option in memory. -/
structure Reads (pdu : List Byte) (o : CoapOption) (option : Word × List Byte) : Prop where
  number : o.optionNumber = option.1
  length : o.optionValueLength.toNat = option.2.length
  value : loadAll pdu o.optionValuePointer option.2.length = .ok option.2

/-- Distances and lengths that the 16 bits of the library hold. -/
lemma small_cons {i : Item} : Small (i :: items) ↔
    (i.delta < 65536 ∧ i.value.length < 65536) ∧ Small items := List.forall_mem_cons

/-- The value of an option lies behind its header and its extended fields. -/
lemma drop_value {i : Item} (h : pdu.drop pos = i.encode ++ rest) :
    pdu.drop (pos + (1 + (extension i.delta).length + (extension i.value.length).length)) =
      i.value ++ rest := by
  obtain ⟨-, htail⟩ := drop_encodeOne h
  have hvalue := drop_append_of_drop (drop_append_of_drop htail)
  rw [Nat.add_assoc, Nat.add_assoc] at hvalue
  rwa [Nat.add_assoc 1]

/-- The loop of `getOptions` finds the options that the message was put together from. -/
lemma optionsLoop_spec (hdrop : pdu.drop pos = encode items ++ rest) (hpos : pos ≤ pdu.length)
    (hsmall : Small items) :
    ∃ options, optionsLoop pdu items.length pos (BitVec.ofNat 16 number) = .ok options ∧
      List.Forall₂ (Reads pdu) options (wrapped number items) := by
  induction items generalizing pos number with
  | nil => exact ⟨[], rfl, List.Forall₂.nil⟩
  | cons i items ih =>
    obtain ⟨⟨hdelta, hlength⟩, hitems⟩ := small_cons.mp hsmall
    rw [encode_cons, List.append_assoc] at hdrop
    have hbytes := congrArg List.length hdrop
    have hsize : i.encode.length = _ := length_encodeOne i.delta i.value
    rw [List.length_drop, List.length_append, List.length_append] at hbytes
    have hnext := drop_append_of_drop hdrop
    obtain ⟨options, hrun, hreads⟩ :
        ∃ options, optionsLoop pdu items.length (pos + i.encode.length)
          (BitVec.ofNat 16 (number + i.delta)) = .ok options ∧
          List.Forall₂ (Reads pdu) options (wrapped (number + i.delta) items) :=
      ih hnext (by omega) hitems
    -- the two fields of this option
    obtain ⟨hgetDelta, hgetLength⟩ := fields_encode hdrop
    have hnumber : BitVec.ofNat 16 number + BitVec.ofNat 16 i.delta =
        BitVec.ofNat 16 (number + i.delta) := (BitVec.ofNat_add number i.delta).symm
    have htoNat : (BitVec.ofNat 16 i.value.length).toNat = i.value.length := by
      rw [BitVec.toNat_ofNat, Nat.mod_eq_of_lt hlength]
    rw [List.length_cons, optionsLoop, hgetDelta, ok_bind, hgetLength, ok_bind]
    dsimp only
    rw [totalLengthOf_ofNat hdelta hlength, ← hsize, hnumber, hrun, ok_bind]
    refine ⟨_, rfl, List.Forall₂.cons ⟨rfl, htoNat, ?_⟩ hreads⟩
    dsimp only
    -- the value is found from the end of the option
    have hplace : pos + i.encode.length - (BitVec.ofNat 16 i.value.length).toNat =
        pos + (1 + (extension i.delta).length + (extension i.value.length).length) := by
      rw [htoNat]
      omega
    rw [hplace]
    exact loadAll_of_drop (drop_value hdrop) (by omega)

end Options

/-! ## The text -/

/-- The first query turns the separator before it into a question mark. -/
def questioned (query : Bool) (number : Word) (text : List Byte) : List Byte :=
  if number = uriQuery ∧ query = false then text.dropLast ++ [0x3F] else text

/-- The text of the path and the query and the length that is said for it, in `room` bytes behind
what there is; `none` where it does not fit. A component that is a slash ends it. -/
def uriText (room : ℕ) (text : List Byte) (query : Bool) :
    List (Word × List Byte) → Option (List Byte × ℕ)
  | [] => some (text.dropLast, text.length - 1)
  | (number, value) :: options =>
    if number = uriPath ∨ number = uriQuery then
      let text := questioned query number text
      let query := query || number == uriQuery
      if room < text.length + value.length then none
      else if value = [0x2F] then some (text, 1)
      else if room < text.length + value.length + 1 then none
      else uriText room (text ++ value ++ [if query then 0x26 else 0x2F]) query options
    else uriText room text query options

section Text

variable {pdu text : List Byte} {room outLen : ℕ} {u : UriState} {query : Bool}
  {options : List CoapOption} {said : List (Word × List Byte)}

/-- The text has been written so far. -/
structure Writes (room : ℕ) (u : UriState) (text : List Byte) (query : Bool) : Prop where
  ne_nil : text ≠ []
  dst : ∃ free, u.dst = text ++ free ∧ text.length + free.length = room + 1
  place : u.place = text.length
  bytesLeft : u.bytesLeft + text.length = room
  separator : u.separator = if query then 0x26 else 0x2F
  firstQuery : u.firstQuery = !query

/-- The question mark takes the place of a separator. -/
lemma length_questioned (hne : text ≠ []) (number : Word) :
    (questioned query number text).length = text.length := by
  have := List.length_pos_of_ne_nil hne
  unfold questioned
  split_ifs
  · rw [List.length_append, List.length_dropLast, List.length_singleton]
    omega
  · rfl

/-- The last byte of the text is written again. -/
lemma Writes.storeLast (h : Writes room u text query) (x : Byte) :
    ∃ free, storeAt u.dst (u.place - 1) x = .ok (text.dropLast ++ x :: free) ∧
      u.dst.drop text.length = free := by
  obtain ⟨init, last, rfl⟩ := (List.eq_nil_or_concat' text).resolve_left h.ne_nil
  obtain ⟨free, hdst, -⟩ := h.dst
  have hplace := h.place
  rw [List.length_append, List.length_singleton] at hplace
  refine ⟨free, ?_, by rw [hdst, List.drop_left]⟩
  rw [hdst, hplace, Nat.add_sub_cancel, List.append_assoc, List.singleton_append,
    storeAt_append_cons, List.dropLast_concat]

/-- The first query turns the last separator into a question mark. -/
lemma Writes.separate (h : Writes room u text query) (number : Word) :
    ∃ u', u.separate number = .ok u' ∧
      Writes room u' (questioned query number text) (query || number == uriQuery) := by
  have hlength : (questioned query number text).length = text.length :=
    length_questioned h.ne_nil number
  have hne : questioned query number text ≠ [] := fun hnil => h.ne_nil <| by
    rw [hnil] at hlength
    exact List.eq_nil_of_length_eq_zero hlength.symm
  obtain ⟨free, hdst, hfree⟩ := h.dst
  unfold UriState.separate
  -- a query is separated by `?` once, and by `&` from then on
  by_cases hnumber : number = uriQuery
  · rw [if_pos hnumber, hnumber, beq_self_eq_true, Bool.or_true]
    cases query with
    | false =>
      obtain ⟨free', hstore, hfree'⟩ := h.storeLast 0x3F
      have hfirst : u.firstQuery = true := h.firstQuery
      rw [hdst, List.drop_left] at hfree'
      subst hfree'
      rw [if_pos hfirst, hstore, ok_bind]
      refine ⟨_, rfl, hnumber ▸ hne, ⟨free, ?_, ?_⟩, ?_, ?_, rfl, rfl⟩
      · rw [questioned, if_pos ⟨rfl, rfl⟩, List.append_assoc, List.singleton_append]
      · rw [← hnumber, hlength, hfree]
      · rw [← hnumber, hlength, ← h.place]
      · rw [← hnumber, hlength, ← h.bytesLeft]
    | true =>
      have hfirst : u.firstQuery = false := h.firstQuery
      have hsame : questioned true uriQuery text = text := if_neg (by simp)
      rw [hfirst, hsame]
      exact ⟨_, rfl, h.ne_nil, ⟨free, hdst, hfree⟩, h.place, h.bytesLeft, rfl, rfl⟩
  · have hsame : questioned query number text = text := if_neg fun h => hnumber h.1
    rw [if_neg hnumber, hsame, beq_eq_false_iff_ne.mpr hnumber, Bool.or_false]
    exact ⟨u, rfl, h⟩

/-- What is written behind the text stays in the buffer. -/
lemma Writes.copy {value : List Byte} (h : Writes room u text query)
    (hfit : text.length + value.length ≤ room) :
    ∃ free, copyTo u.dst u.place value = .ok (text ++ (value ++ free)) ∧
      text.length + value.length + free.length = room + 1 := by
  obtain ⟨free, hdst, hfree⟩ := h.dst
  have hsplit : free = free.take value.length ++ free.drop value.length :=
    (List.take_append_drop _ _).symm
  have htake : (free.take value.length).length = value.length := List.length_take_of_le (by omega)
  refine ⟨free.drop value.length, ?_, ?_⟩
  · rw [hdst, h.place, hsplit, copyTo_append value htake, ← hsplit]
  · rw [List.length_drop]
    omega

/-- A component and a separator behind it, if there is room for both. -/
lemma Writes.append {value : List Byte} (h : Writes room u text query)
    (hfit : text.length + value.length + 1 ≤ room) :
    ∃ dst dst', copyTo u.dst u.place value = .ok dst ∧
      storeAt dst (u.place + value.length) u.separator = .ok dst' ∧
      Writes room { u with
        dst := dst', place := u.place + value.length + 1
        bytesLeft := u.bytesLeft - value.length - 1 }
        (text ++ value ++ [if query then 0x26 else 0x2F]) query := by
  obtain ⟨free, hcopy, hfree⟩ := h.copy (Nat.le_of_succ_le hfit)
  have hbytes := h.bytesLeft
  obtain ⟨x, free, rfl⟩ := List.exists_cons_of_length_pos (show 0 < free.length by omega)
  have hplace : u.place + value.length = (text ++ value).length := by
    rw [h.place, List.length_append]
  rw [List.length_cons] at hfree
  refine ⟨_, _, hcopy, ?_, ⟨?_, ⟨free, rfl, ?_⟩, ?_, ?_, h.separator, h.firstQuery⟩⟩
  -- the separator goes behind the value
  · rw [hplace, ← List.append_assoc, storeAt_append_cons, h.separator, List.append_assoc (_ ++ _),
      List.singleton_append]
  · exact List.append_ne_nil_of_right_ne_nil _ (List.cons_ne_nil _ _)
  · simp only [List.length_append, List.length_singleton]
    omega
  · simp only [hplace, List.length_append, List.length_singleton]
  · simp only [List.length_append, List.length_singleton]
    omega

/-- **The text that is written.** -/
lemma uriLoop_spec (h : Writes room u text query) (hreads : List.Forall₂ (Reads pdu) options said) :
    (∃ text' n free, uriText room text query said = some (text', n) ∧
      uriLoop pdu (room + 1) outLen options u = .ok (0, text' ++ 0 :: free, n) ∧
      text'.length + free.length = room) ∨
    uriText room text query said = none ∧
      ∃ dst, uriLoop pdu (room + 1) outLen options u = .ok (1, dst, outLen) ∧
        dst.length = room + 1 := by
  -- the induction is on the options that are left; `Writes` says what the buffer holds so far
  induction hreads generalizing u text query with
  | nil =>
    obtain ⟨free, hstore, hfree⟩ := h.storeLast 0
    have hpos := List.length_pos_of_ne_nil h.ne_nil
    have hbytes := h.bytesLeft
    -- the last separator is replaced by the zero that ends the string
    refine .inl ⟨text.dropLast, text.length - 1, free, rfl, ?_, ?_⟩
    · rw [uriLoop, hstore, ok_bind,
        show room + 1 - 1 - (u.bytesLeft + 1) = text.length - 1 by omega]
    · obtain ⟨free', hdst, hfree'⟩ := h.dst
      rw [hdst, List.drop_left] at hfree
      rw [List.length_dropLast, ← hfree]
      omega
  | @cons o option options said hread hreads ih =>
    obtain ⟨number, value⟩ := option
    rw [uriLoop, uriText, hread.number]
    by_cases huri : number = uriPath ∨ number = uriQuery
    · rw [if_pos huri, if_pos huri]
      obtain ⟨u', hseparate, hu⟩ := h.separate number
      rw [hseparate, ok_bind]
      generalize questioned query number text = text₁ at hu ⊢
      generalize (query || number == uriQuery) = query₁ at hu ⊢
      dsimp only
      rw [hread.length]
      dsimp only
      obtain ⟨free, hdst, hfree⟩ := hu.dst
      have hbytes := hu.bytesLeft
      have hlength : u'.dst.length = room + 1 := by rw [hdst, List.length_append, hfree]
      by_cases hfit : u'.bytesLeft < value.length
      -- the value is longer than the room: `getURI` fails
      · rw [if_pos hfit, if_pos (by omega)]
        exact .inr ⟨rfl, _, rfl, hlength⟩
      · rw [if_neg hfit, if_neg (by omega), hread.value, ok_bind]
        by_cases hslash : value = [0x2F]
        -- a component `/` alone ends the text
        · obtain ⟨x, free, rfl⟩ := List.exists_cons_of_length_pos (show 0 < free.length by omega)
          rw [List.length_cons] at hfree
          rw [if_pos hslash, if_pos hslash, hdst, hu.place, storeAt_append_cons, ok_bind]
          exact .inl ⟨text₁, 1, free, rfl, rfl, by omega⟩
        · rw [if_neg hslash, if_neg hslash]
          -- there is room for the value, but maybe not for the separator behind it
          by_cases hroom : room < text₁.length + value.length + 1
          · obtain ⟨free', hcopy, hfree'⟩ :=
              hu.copy (show text₁.length + value.length ≤ room by omega)
            have hleft : ¬ 1 ≤ u'.bytesLeft - value.length := by omega
            rw [hcopy, ok_bind, if_pos hroom, if_neg hleft]
            refine .inr ⟨rfl, _, rfl, ?_⟩
            simp only [List.length_append]
            omega
          · obtain ⟨dst, dst', hcopy, hstore, hnext⟩ := hu.append (not_lt.mp hroom)
            have hleft : 1 ≤ u'.bytesLeft - value.length := by omega
            rw [hcopy, ok_bind, if_neg hroom, if_pos hleft, hstore, ok_bind]
            exact ih hnext
    · rw [if_neg huri, if_neg huri]
      exact ih h

end Text

/-! ## A message that was accepted -/

section Accepted

variable {s : CoapPdu} {data stale dst : List Byte} {m : Message} {room : ℕ}

/-- Behind the token are the options and the payload. -/
lemma Accepted.drop_body (h : Accepted s data stale m) (hdata : data = m.encode) :
    s.pdu.drop (4 + m.token.length) = encode m.items ++ (payloadPart m.payload ++ stale) := by
  have hbody : m.encode.drop (4 + m.token.length) = m.body := by
    rw [← List.drop_drop]
    exact List.drop_left
  have hlength := length_encode m
  rw [h.pdu, hdata, List.drop_append_of_le_length (by omega), hbody, Message.body,
    List.append_assoc]

/-- The buffer holds the message, and behind it what was there before. -/
lemma Accepted.pdu_eq (h : Accepted s data stale m) (hdata : data = m.encode) :
    s.pdu = firstByte m.version m.type m.token.length :: m.code :: m.id.1 :: m.id.2 ::
      (m.token ++ (m.body ++ stale)) := by
  rw [h.pdu, hdata, Message.encode]
  simp only [List.cons_append, List.append_assoc]

lemma Accepted.load_first (h : Accepted s data stale m) (hdata : data = m.encode) :
    loadAt s.pdu 0 = .ok (firstByte m.version m.type m.token.length) := by
  rw [h.pdu_eq hdata]
  rfl

lemma Accepted.getTokenLength (h : Accepted s data stale m) (hdata : data = m.encode) :
    s.getTokenLength = .ok m.token.length := by
  rw [CoapPdu.getTokenLength, h.load_first hdata, ok_bind, toNat_lower, firstByte_mod]

/-- The bits of the type, in all the bytes that a message can begin with. -/
lemma first_type : ∀ (v t : Fin 4) (k : Fin 9),
    firstByte v t k &&& 0x30 = BitVec.ofNat 8 (t * 16) := by
  decide

lemma Accepted.getType (h : Accepted s data stale m) (hdata : data = m.encode) :
    s.getType = .ok (BitVec.ofNat 8 (m.type * 16)) := by
  have htype := first_type ⟨m.version, m.version_lt⟩ ⟨m.type, m.type_lt⟩
    ⟨m.token.length, Nat.lt_succ_of_le m.token_le⟩
  rw [CoapPdu.getType, h.load_first hdata, ok_bind]
  exact congrArg Except.ok htype

lemma Accepted.getCode (h : Accepted s data stale m) (hdata : data = m.encode) :
    s.getCode = .ok m.code := by
  rw [CoapPdu.getCode, h.pdu_eq hdata]
  rfl

lemma Accepted.getMessageId (h : Accepted s data stale m) (hdata : data = m.encode) :
    s.getMessageId = .ok (wordOf m.id.2 m.id.1) := by
  have hhi : loadAt s.pdu 2 = .ok m.id.1 := by
    rw [h.pdu_eq hdata]
    rfl
  have hlo : loadAt s.pdu 3 = .ok m.id.2 := by
    rw [h.pdu_eq hdata]
    rfl
  rw [CoapPdu.getMessageId, hhi, ok_bind, hlo, ok_bind]

lemma Accepted.load_token (h : Accepted s data stale m) (hdata : data = m.encode) :
    loadAll s.pdu 4 m.token.length = .ok m.token :=
  loadAll_of_drop (congrArg (List.drop 4) (h.pdu_eq hdata))
    (by rw [h.pdu_eq hdata]; exact Nat.le_add_left 4 _)

lemma Accepted.getPayloadCopy (h : Accepted s data stale m) (hdata : data = m.encode) :
    s.getPayloadCopy = .ok (if m.payload = [] then none else some m.payload) := by
  rw [CoapPdu.getPayloadCopy, h.payloadLength]
  by_cases hnil : m.payload = []
  · rw [hnil, if_pos List.length_nil, if_pos rfl]
  · rw [if_neg (List.length_pos_of_ne_nil hnil).ne', h.payloadPointer hnil, if_neg hnil]
    dsimp only
    have hdrop : s.pdu.drop (data.length - m.payload.length) = m.payload ++ stale := by
      rw [h.pdu, hdata]
      exact drop_suffix (encode_eq_append_payload hnil)
    have hle : data.length - m.payload.length ≤ s.pdu.length := by
      rw [h.pdu, List.length_append]
      omega
    rw [loadAll_of_drop hdrop hle, ok_bind]

/-- **The options that are read.** They are those of the message. -/
theorem getOptions_spec (h : Accepted s data stale m) (hdata : data = m.encode)
    (hsmall : Small m.items) :
    ∃ options, s.getOptions = .ok options ∧
      List.Forall₂ (Reads s.pdu) options (wrapped 0 m.items) := by
  rw [CoapPdu.getOptions, h.numOptions]
  by_cases hnil : m.items = []
  · rw [hnil, if_pos List.length_nil]
    exact ⟨[], rfl, List.Forall₂.nil⟩
  · have hlength := length_encode m
    have hpdu : 4 + m.token.length ≤ s.pdu.length := by
      rw [h.pdu, hdata, List.length_append]
      omega
    rw [if_neg (List.length_pos_of_ne_nil hnil).ne', h.getTokenLength hdata, ok_bind]
    exact optionsLoop_spec (h.drop_body hdata) hpdu hsmall

/-- Every value of the options is inside the buffer. -/
lemma mapM_loadAll {pdu : List Byte} {options : List CoapOption} {said : List (Word × List Byte)}
    (h : List.Forall₂ (Reads pdu) options said) :
    options.mapM (fun o => loadAll pdu o.optionValuePointer o.optionValueLength.toNat) =
      .ok (said.map Prod.snd) := by
  induction h with
  | nil => rfl
  | cons hfirst _ ih =>
    rw [List.mapM_cons, hfirst.length, hfirst.value, ok_bind, ih]
    rfl

/-- What is printed of a message that was accepted is in its buffer. -/
lemma printHuman_spec (h : Accepted s data stale m) (hdata : data = m.encode)
    (hsmall : Small m.items) : s.printHuman = .ok () := by
  obtain ⟨options, hoptions, hreads⟩ := getOptions_spec h hdata hsmall
  have hversion : s.getVersion = .ok ((firstByte m.version m.type m.token.length &&& 0xC0) >>> 6) :=
    by rw [CoapPdu.getVersion, h.load_first hdata, ok_bind]
  rw [CoapPdu.printHuman, hversion, ok_bind, h.getType hdata, ok_bind, h.getTokenLength hdata,
    ok_bind, h.getCode hdata, ok_bind, h.getMessageId hdata, ok_bind, h.load_token hdata, ok_bind,
    hoptions, ok_bind, mapM_loadAll hreads, ok_bind, h.getPayloadCopy hdata, ok_bind]

/-- **The URI that is read.** -/
theorem getUri_spec (outLen : ℕ) (h : Accepted s data stale m) (hdata : data = m.encode)
    (hsmall : Small m.items) (hroom : 1 ≤ room) (hdst : dst.length = room + 1) :
    (∃ text n free, uriText room [0x2F] false (wrapped 0 m.items) = some (text, n) ∧
      s.getUri dst outLen = .ok (0, text ++ 0 :: free, n) ∧ text.length + free.length = room) ∨
    uriText room [0x2F] false (wrapped 0 m.items) = none ∧
      ∃ dst', s.getUri dst outLen = .ok (1, dst', outLen) ∧ dst'.length = room + 1 := by
  obtain ⟨x, free, rfl⟩ := List.exists_cons_of_length_pos (show 0 < dst.length by omega)
  have hfree : free.length = room := Nat.succ.inj hdst
  have hstore (y : Byte) : storeAt (x :: free) 0 y = .ok (y :: free) :=
    storeAt_append_cons [] x y free
  rw [CoapPdu.getUri, if_neg (by omega), h.numOptions]
  -- without options the text is empty
  by_cases hnil : m.items = []
  · rw [hnil, if_pos List.length_nil, hstore, ok_bind]
    exact .inl ⟨[], 0, free, rfl, rfl, by rw [List.length_nil, hfree, Nat.zero_add]⟩
  · obtain ⟨options, hoptions, hreads⟩ := getOptions_spec h hdata hsmall
    rw [if_neg (List.length_pos_of_ne_nil hnil).ne', hoptions, ok_bind, if_pos (by omega), hstore,
      ok_bind, show ((0x2F : Byte) :: free).length = room + 1 from hdst]
    exact uriLoop_spec ⟨List.cons_ne_nil _ _, ⟨free, rfl, by rw [hfree, Nat.add_comm]; rfl⟩, rfl,
      Nat.sub_add_cancel hroom, rfl, rfl⟩ hreads

end Accepted

/-! ## The name of a resource -/

/-- The text in front of the first zero. -/
def cString (text : List Byte) : List Byte := text.takeWhile (· ≠ 0)

/-- An option of the path or the query. -/
def isUri (o : Word × List Byte) : Bool := o.1 = uriPath ∨ o.1 = uriQuery

section Name

variable {text text' name value : List Byte} {room n : ℕ} {query : Bool} {number : Word}
  {options : List (Word × List Byte)}

lemma cString_zero : cString (0 :: text) = [] := rfl

lemma cString_cons {b : Byte} (hb : b ≠ 0) : cString (b :: text) = b :: cString text :=
  List.takeWhile_cons_of_pos (decide_eq_true hb)

/-- A string is the text up to its first zero. -/
lemma cString_eq_iff (hname : 0 ∉ name) :
    cString text = name ↔ text = name ∨ (name ++ [0]) <+: text := by
  -- byte by byte, until the first zero of the text
  induction text generalizing name with
  | nil =>
    rw [List.prefix_nil, List.append_eq_nil_iff]
    exact ⟨.inl, fun h => h.resolve_right fun h => List.cons_ne_nil _ _ h.2⟩
  | cons b text ih =>
    by_cases hb : b = 0
    · subst hb
      rw [cString_zero]
      cases name with
      | nil => exact ⟨fun _ => .inr (List.prefix_append [0] text), fun _ => rfl⟩
      | cons a name =>
        rw [List.mem_cons, not_or] at hname
        rw [List.cons.injEq, List.cons_append, List.cons_prefix_cons]
        exact ⟨fun h => absurd h.symm (List.cons_ne_nil _ _),
          fun h => h.elim (fun h => absurd h.1 hname.1) fun h => absurd h.1.symm hname.1⟩
    · rw [cString_cons hb]
      cases name with
      | nil =>
        rw [List.nil_append, List.cons_prefix_cons]
        exact ⟨fun h => absurd h (List.cons_ne_nil _ _),
          fun h => h.elim (fun h => absurd h (List.cons_ne_nil _ _)) fun h => absurd h.1.symm hb⟩
      | cons a name =>
        rw [List.mem_cons, not_or] at hname
        rw [List.cons.injEq, List.cons.injEq, List.cons_append, List.cons_prefix_cons,
          ih hname.2, and_or_left, eq_comm (a := a)]

/-- Only the last separator is turned. -/
lemma dropLast_questioned : (questioned query number text).dropLast = text.dropLast := by
  unfold questioned
  split_ifs
  · rw [List.dropLast_concat]
  · rfl

/-- Only the options of a URI make its text. -/
lemma uriText_filter : uriText room text query (options.filter isUri) =
    uriText room text query options := by
  induction options generalizing text query with
  | nil => rfl
  | cons o options ih =>
    obtain ⟨number, value⟩ := o
    by_cases huri : number = uriPath ∨ number = uriQuery
    · rw [List.filter_cons_of_pos (by simp [isUri, huri]), uriText, uriText, if_pos huri,
        if_pos huri]
      dsimp only
      rw [ih]
    · rw [List.filter_cons_of_neg (by simp [isUri, huri]), uriText, if_neg huri, ih]

/-- The text only grows, except for its last byte. -/
lemma uriText_begins (h : uriText room text query options = some (text', n)) :
    text.dropLast <+: text' ∧ (n = text'.length ∨ n = 1) := by
  induction options generalizing text query with
  | nil =>
    obtain ⟨rfl, rfl⟩ := Prod.mk.inj (Option.some.inj h)
    exact ⟨List.prefix_refl _, .inl List.length_dropLast.symm⟩
  | cons o options ih =>
    obtain ⟨number, value⟩ := o
    rw [uriText] at h
    by_cases huri : number = uriPath ∨ number = uriQuery
    · rw [if_pos huri] at h
      -- whatever the last byte becomes, the others stay
      have hlast : (questioned query number text).dropLast = text.dropLast := dropLast_questioned
      rw [← hlast]
      dsimp only at h
      split_ifs at h with hfit hslash hroom hquery
      · obtain ⟨rfl, rfl⟩ := Prod.mk.inj (Option.some.inj h)
        exact ⟨List.dropLast_prefix _, .inr rfl⟩
      all_goals
        obtain ⟨hbegins, hlength⟩ := ih h
        rw [List.dropLast_concat] at hbegins
        exact ⟨((List.dropLast_prefix _).trans (List.prefix_append _ _)).trans hbegins, hlength⟩
    · rw [if_neg huri] at h
      exact ih h

/-- What is written first is not written over. -/
lemma uriText_behind {rest : List (Word × List Byte)} (huri : isUri (number, value))
    (h : uriText room text query ((number, value) :: rest) = some (text', n)) :
    questioned query number text <+: text' := by
  rw [uriText, if_pos (of_decide_eq_true huri)] at h
  dsimp only at h
  split_ifs at h with hfit hslash hroom hquery
  · obtain ⟨rfl, -⟩ := Prod.mk.inj (Option.some.inj h)
    exact List.prefix_refl _
  all_goals
    have hbegins := (uriText_begins h).1
    rw [List.dropLast_concat] at hbegins
    exact (List.prefix_append _ _).trans hbegins

/-- What stands behind a component that is followed by another one. -/
lemma exists_separator (query : Bool) (number : Word) (text : List Byte) (c : Byte) :
    ∃ c', (c' = c ∨ c' = 0x3F) ∧ questioned query number (text ++ [c]) = text ++ [c'] := by
  unfold questioned
  split_ifs
  · exact ⟨0x3F, .inr rfl, by rw [List.dropLast_concat]⟩
  · exact ⟨c, .inl rfl, rfl⟩

/-- The first component of a path, if it is no slash. -/
lemma uriText_path (rest : List (Word × List Byte)) (hslash : value ≠ [0x2F]) :
    uriText room [0x2F] false ((uriPath, value) :: rest) =
      if room < value.length + 2 then none
      else uriText room (0x2F :: (value ++ [0x2F])) false rest := by
  have hsize : room < [(0x2F : Byte)].length + value.length + 1 ↔ room < value.length + 2 := by
    rw [List.length_singleton]
    omega
  rw [uriText, if_pos (.inl rfl)]
  change (if room < [(0x2F : Byte)].length + value.length then none
    else if value = [0x2F] then some ([0x2F], 1)
    else if room < [(0x2F : Byte)].length + value.length + 1 then none
    else uriText room (0x2F :: (value ++ [0x2F])) false rest) = _
  rw [if_neg hslash]
  by_cases hroom : room < value.length + 2
  · rw [if_pos hroom, if_pos (hsize.mpr hroom), ite_self]
  · rw [if_neg hroom, if_neg (hsize.not.mpr hroom), if_neg (by rw [List.length_singleton]; omega)]

/-- A name that ends inside the first component ends at a zero in it. -/
lemma prefix_value {c : Byte} (hc : c ∉ name) (hzero : c ≠ 0)
    (hname : cString text = name) (hnone : 0 ∉ name) (htext : (value ++ [c]) <+: text) :
    (name ++ [0]) <+: value := by
  have hmem : c ∈ value ++ [c] := List.mem_append_right _ (List.mem_singleton_self c)
  rcases (cString_eq_iff hnone).mp hname with rfl | hbegins
  · exact absurd (htext.subset hmem) hc
  · rcases List.prefix_or_prefix_of_prefix hbegins htext with h | h
    · rcases List.prefix_concat_iff.mp h with heq | h
      · exact absurd (List.append_inj_right' heq rfl) (by simpa using hzero.symm)
      · exact h
    · rcases List.mem_append.mp (h.subset hmem) with hin | hin
      · exact absurd hin hc
      · exact absurd (List.mem_singleton.mp hin) hzero

/-- **Which messages name a resource.** They have its name as the only component of the path and no
query, or a first component that goes on behind a zero, and then anything that fits. -/
theorem cString_uriText_iff (hname : name ≠ []) (hzero : 0 ∉ name) (hslash : 0x2F ∉ name)
    (hquestion : 0x3F ∉ name) (hroom : name.length + 2 ≤ room) :
    (∃ text n, uriText room [0x2F] false options = some (text, n) ∧ n ≠ 0 ∧
      cString text = 0x2F :: name) ↔
    ∃ value rest, options.filter isUri = (uriPath, value) :: rest ∧
      (value = name ∧ rest = [] ∨
        (name ++ [0]) <+: value ∧ uriText room [0x2F] false options ≠ none) := by
  have hkept : ∀ o ∈ options.filter isUri, isUri o := fun o ho => (List.mem_filter.mp ho).2
  rw [← uriText_filter]
  -- the other options write nothing
  generalize options.filter isUri = uris at hkept ⊢
  constructor
  · rintro ⟨text, n, h, hn, hstring⟩
    cases uris with
    | nil =>
      obtain ⟨-, rfl⟩ := Prod.mk.inj (Option.some.inj h)
      exact absurd rfl hn
    | cons o rest =>
      obtain ⟨number, value⟩ := o
      obtain ⟨huri, hrest⟩ := List.forall_mem_cons.mp hkept
      have hfirst := uriText_behind huri h
      rcases of_decide_eq_true huri with hnumber | hnumber
      swap
      -- a query in front makes the text begin with a question mark
      · obtain rfl : number = uriQuery := hnumber
        obtain ⟨tail, rfl⟩ : [0x3F] <+: text := hfirst
        rw [List.singleton_append, cString_cons (by decide)] at hstring
        exact absurd (List.cons.inj hstring).1 (by decide)
      obtain rfl : number = uriPath := hnumber
      -- a first component `/` writes nothing but the slash
      have hone : value ≠ [0x2F] := by
        rintro rfl
        rw [uriText, if_pos (.inl rfl)] at h
        dsimp only at h
        rw [if_pos (rfl : ([0x2F] : List Byte) = [0x2F])] at h
        split_ifs at h
        obtain ⟨rfl, -⟩ := Prod.mk.inj (Option.some.inj h)
        exact hname (List.cons.inj hstring).2.symm
      have hnext := h
      rw [uriText_path rest hone] at hnext
      split_ifs at hnext with hfit
      refine ⟨value, rest, rfl, ?_⟩
      cases rest with
      | nil =>
        obtain ⟨rfl, -⟩ := Prod.mk.inj (Option.some.inj hnext)
        rw [← List.cons_append, List.dropLast_concat, cString_cons (by decide)] at hstring
        rcases (cString_eq_iff hzero).mp (List.cons.inj hstring).2 with hvalue | hbegins
        · exact .inl ⟨hvalue, rfl⟩
        · exact .inr ⟨hbegins, by rw [h]; exact Option.some_ne_none _⟩
      | cons o rest =>
        obtain ⟨number, value'⟩ := o
        have hbehind := uriText_behind (List.forall_mem_cons.mp hrest).1 hnext
        -- behind the first component stands a separator, which the name does not hold
        obtain ⟨c, hc, hquestioned⟩ := exists_separator false number (0x2F :: value) 0x2F
        obtain ⟨tail, rfl⟩ := (hquestioned ▸ hbehind : (0x2F :: value) ++ [c] <+: text)
        rw [List.cons_append, List.cons_append, cString_cons (by decide)] at hstring
        refine .inr ⟨prefix_value ?_ ?_ (List.cons.inj hstring).2 hzero (List.prefix_append _ _),
          by rw [h]; exact Option.some_ne_none _⟩
        · rcases hc with rfl | rfl
          · exact hslash
          · exact hquestion
        · rcases hc with rfl | rfl <;> decide
  · rintro ⟨value, rest, rfl, ⟨rfl, rfl⟩ | ⟨hbegins, hfits⟩⟩
    -- the only component is the name itself
    · have hone : value ≠ [0x2F] := fun h => hslash (h ▸ List.mem_singleton_self _)
      refine ⟨0x2F :: value, value.length + 1, ?_, Nat.succ_ne_zero _, ?_⟩
      · rw [uriText_path [] hone, if_neg (by omega), uriText, ← List.cons_append,
          List.dropLast_concat, List.length_append, List.length_cons, List.length_singleton,
          Nat.add_sub_cancel]
      · rw [cString_cons (by decide), (cString_eq_iff hzero).mpr (.inl rfl)]
    · have hone : value ≠ [0x2F] := by
        rintro rfl
        have hlength := hbegins.length_le
        rw [List.length_append, List.length_singleton, List.length_singleton] at hlength
        exact hname (List.eq_nil_of_length_eq_zero (by omega))
      -- the name ends at the zero, and the rest of the text only has to fit
      obtain ⟨⟨text, n⟩, h⟩ := Option.ne_none_iff_exists'.mp hfits
      have hnext := h
      rw [uriText_path rest hone] at hnext
      split_ifs at hnext with hfit
      obtain ⟨hbehind, hlength⟩ := uriText_begins hnext
      rw [← List.cons_append, List.dropLast_concat] at hbehind
      have hpos : 1 ≤ text.length := le_trans (Nat.succ_pos _) hbehind.length_le
      refine ⟨text, n, h, by omega, ?_⟩
      have hzero' : 0 ∉ 0x2F :: name := by
        rw [List.mem_cons, not_or]
        exact ⟨by decide, hzero⟩
      refine (cString_eq_iff hzero').mpr (.inr (List.IsPrefix.trans ?_ hbehind))
      exact List.cons_prefix_cons.mpr ⟨rfl, hbegins⟩

end Name

end Vng.Cantcoap
