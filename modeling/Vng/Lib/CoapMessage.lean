import Vng.Lib.OptionList

/-!
# Messages of the constrained application protocol

Four bytes of header, the token, the options and, behind a marker, the payload.
-/

namespace CoapMessage

open OptionList

/-- A message, as its fields say it. -/
structure Message where
  version : ℕ
  type : ℕ
  code : BitVec 8
  /-- The bytes of the message id, in the order of the network. -/
  id : BitVec 8 × BitVec 8
  token : List (BitVec 8)
  items : List Item
  payload : List (BitVec 8)
  version_lt : version < 4
  type_lt : type < 4
  token_le : token.length ≤ 8
deriving DecidableEq, Repr

/-- The marker and the payload; nothing for an empty one. -/
def payloadPart (payload : List (BitVec 8)) : List (BitVec 8) :=
  if payload = [] then [] else marker :: payload

/-- The byte of version, type and token length. -/
def firstByte (version type tokenLength : ℕ) : BitVec 8 :=
  BitVec.ofNat 8 (version * 64 + type * 16 + tokenLength)

/-- What follows the header and the token. -/
def Message.body (m : Message) : List (BitVec 8) := encode m.items ++ payloadPart m.payload

/-- The bytes of a message on the wire. -/
def Message.encode (m : Message) : List (BitVec 8) :=
  firstByte m.version m.type m.token.length :: m.code :: m.id.1 :: m.id.2 :: (m.token ++ m.body)

variable {version type tokenLength : ℕ} {payload payload' : List (BitVec 8)}

/-- The three fields lie side by side in the first byte. -/
lemma toNat_firstByte (hversion : version < 4) (htype : type < 4) (htoken : tokenLength ≤ 8) :
    (firstByte version type tokenLength).toNat = version * 64 + type * 16 + tokenLength := by
  rw [firstByte, BitVec.toNat_ofNat, Nat.mod_eq_of_lt (by omega)]

/-- Every byte is made of the three fields that are read from it. -/
lemma firstByte_self (a : BitVec 8) :
    firstByte (a.toNat / 64) (a.toNat / 16 % 4) (a.toNat % 16) = a := by
  have := a.isLt
  apply BitVec.eq_of_toNat_eq
  rw [firstByte, BitVec.toNat_ofNat]
  omega

/-! ## The first byte of a message -/

lemma Message.head?_encode (m : Message) :
    m.encode.head? = some (firstByte m.version m.type m.token.length) := rfl

/-- The version is read from the two highest bits. -/
lemma firstByte_div (m : Message) :
    (firstByte m.version m.type m.token.length).toNat / 64 = m.version := by
  have htype := m.type_lt
  have htoken := m.token_le
  rw [toNat_firstByte m.version_lt htype htoken]
  omega

/-- The type from the two bits below. -/
lemma firstByte_type (m : Message) :
    (firstByte m.version m.type m.token.length).toNat / 16 % 4 = m.type := by
  have htype := m.type_lt
  have hle := m.token_le
  rw [toNat_firstByte m.version_lt htype hle]
  omega

/-- The token length from the low half. -/
lemma firstByte_mod (m : Message) :
    (firstByte m.version m.type m.token.length).toNat % 16 = m.token.length := by
  have := m.token_le
  rw [toNat_firstByte m.version_lt m.type_lt m.token_le]
  omega

/-- Four bytes are a header. -/
lemma exists_header {data : List (BitVec 8)} (h : 4 ≤ data.length) :
    ∃ a code hi lo rest, data = a :: code :: hi :: lo :: rest := by
  match data, h with
  | a :: code :: hi :: lo :: rest, _ => exact ⟨a, code, hi, lo, rest, rfl⟩

/-- Four bytes, the token of which the first one says the length, options and a payload are the
bytes of a message. -/
lemma exists_encode_eq {a : BitVec 8} (code hi lo : BitVec 8) {token : List (BitVec 8)}
    (htoken : token.length = a.toNat % 16) (hle : token.length ≤ 8) (items : List Item)
    (payload : List (BitVec 8)) :
    ∃ m : Message, a :: code :: hi :: lo :: (token ++ (encode items ++ payloadPart payload)) =
      m.encode ∧ m.version = a.toNat / 64 ∧ m.code = code ∧ m.items = items ∧
      m.payload = payload := by
  have hlt := a.isLt
  refine ⟨⟨a.toNat / 64, a.toNat / 16 % 4, code, (hi, lo), token, items, payload, by omega,
    by omega, hle⟩, ?_, rfl, rfl, rfl, rfl⟩
  rw [Message.encode, Message.body]
  dsimp only
  -- the first byte is put together from the fields that were read from it
  rw [htoken, firstByte_self]

/-- The list of options ends in front of a payload. -/
lemma ends_payloadPart (payload : List (BitVec 8)) : Ends (payloadPart payload) := by
  unfold payloadPart
  split_ifs
  · exact .inl rfl
  · exact .inr ⟨payload, rfl⟩

/-- A payload is told from its marker. -/
lemma payloadPart_inj (h : payloadPart payload = payloadPart payload') : payload = payload' := by
  unfold payloadPart at h
  split_ifs at h with h₁ h₂
  · rw [h₁, h₂]
  · exact (List.cons.inj h).2

lemma length_payloadPart (payload : List (BitVec 8)) :
    (payloadPart payload).length = if payload = [] then 0 else payload.length + 1 := by
  unfold payloadPart
  split_ifs <;> rfl

lemma length_encode (m : Message) : m.encode.length = 4 + m.token.length + m.body.length := by
  simp only [Message.encode, List.length_cons, List.length_append]
  omega

/-- **A message can be told from its bytes.** -/
theorem encode_injective : Function.Injective Message.encode := by
  intro m m' h
  obtain ⟨hfirst, hrest⟩ := List.cons.inj h
  obtain ⟨hcode, hrest⟩ := List.cons.inj hrest
  obtain ⟨hhi, hrest⟩ := List.cons.inj hrest
  obtain ⟨hlo, hrest⟩ := List.cons.inj hrest
  -- the version, the type and the token length from the first byte
  have hnum := congrArg BitVec.toNat hfirst
  rw [toNat_firstByte m.version_lt m.type_lt m.token_le,
    toNat_firstByte m'.version_lt m'.type_lt m'.token_le] at hnum
  have htoken := m.token_le
  have htoken' := m'.token_le
  have htype := m.type_lt
  have htype' := m'.type_lt
  -- with equal lengths the tokens and the bodies can be told apart
  obtain ⟨htokenEq, hbody⟩ := List.append_inj hrest (by omega)
  obtain ⟨hitems, hpayload⟩ :=
    encode_append_inj (ends_payloadPart m.payload) (ends_payloadPart m'.payload) hbody
  -- only the proofs of the bounds are left
  cases m
  cases m'
  simp only [Message.mk.injEq]
  exact ⟨by dsimp only at *; omega, by dsimp only at *; omega, hcode, Prod.ext hhi hlo, htokenEq,
    hitems, payloadPart_inj hpayload⟩

end CoapMessage
