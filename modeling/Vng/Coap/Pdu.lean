import Vng.Coap.OptionEncode
import Vng.Lib.CoapMessage
import Vng.Lib.Machine

/-!
# Building a CoAP message

`coap_pdu_init` makes the buffer of a message, `coap_add_token`, `coap_add_option` and
`coap_add_data` fill it from the front. The options have to come in the order of their numbers.
-/

namespace Vng.Libcoap

open Memory OptionList CoapMessage

/-- `COAP_MAX_PDU_SIZE`. -/
def maxPduSize : ℕ := 1400

/-- `coap_pdu_t`, with the `max_size` bytes behind `hdr`; the payload is a place in them. -/
structure Pdu (maxSize : ℕ) where
  hdr : Vector Byte maxSize
  maxDelta : ℕ
  length : ℕ
  data : Option ℕ
  maxSize_le : maxSize ≤ maxPduSize
deriving DecidableEq, Repr

/-- `hdr->token_length`. -/
def tokenLength (first : Byte) : ℕ := first.toNat % 16

/-- With the memory for `size` bytes; `none` where the source returns `NULL`. -/
def coapPduInit (type code : Byte) (id : Word) (size : ℕ) : Checked (Option (Pdu size)) :=
  -- `assert(size <= COAP_MAX_PDU_SIZE)`
  if maxPduSize < size then .error .assertion
  else if h : size < 4 ∨ maxPduSize < size then .ok none
  else do
    let hdr ← storeAll (Vector.replicate size 0) 0
      ([firstByte 1 (type.toNat % 4) 0, code] ++ wordBytes id)
    .ok (some ⟨hdr, 0, 4, none, by omega⟩)

def coapAddToken {n : ℕ} (pdu : Pdu n) (token : List Byte) : Checked (Option (Pdu n)) :=
  if 8 < token.length ∨ n < token.length + 4 then .ok none else do
    let first ← load pdu.hdr 0
    let hdr ← store pdu.hdr 0 (BitVec.ofNat 8 (first.toNat / 16 * 16 + token.length))
    let hdr ← storeAll hdr 4 token
    .ok (some ⟨hdr, 0, token.length + 4, none, pdu.maxSize_le⟩)

/-- `none` where the source returns 0; what a refused call has written is behind the message. -/
def coapAddOption {n : ℕ} (pdu : Pdu n) (type : Word) (data : List Byte) :
    Checked (Option (Pdu n)) :=
  if type.toNat < pdu.maxDelta then .ok none else do
    match ← coapOptEncode pdu.hdr pdu.length (n - pdu.length) (type.toNat - pdu.maxDelta) data with
    | none => .ok none
    | some (hdr, optsize) =>
      .ok (some ⟨hdr, type.toNat, pdu.length + optsize, none, pdu.maxSize_le⟩)

def coapAddData {n : ℕ} (pdu : Pdu n) (data : List Byte) : Checked (Option (Pdu n)) :=
  -- `assert(pdu->data == NULL)`
  if pdu.data ≠ none then .error .assertion
  else if data.length = 0 then .ok (some pdu)
  else if n < pdu.length + data.length + 1 then .ok none
  else do
    let hdr ← store pdu.hdr pdu.length marker
    let hdr ← storeAll hdr (pdu.length + 1) data
    .ok (some { pdu with
      hdr := hdr, data := some (pdu.length + 1), length := pdu.length + (data.length + 1) })

/-- `coap_get_data`. -/
def coapGetData {n : ℕ} (pdu : Pdu n) : Checked (List Byte) :=
  match pdu.data with
  | some data => loadAll pdu.hdr.toList data (pdu.length - data)
  | none => .ok []

/-- A message in the making, with the options that were taken. -/
structure Builder (n : ℕ) where
  pdu : Pdu n
  added : List (Word × List Byte)
deriving Repr

/-- A call of `coap_add_option`. -/
def Builder.step {n : ℕ} (s : Builder n) (option : Word × List Byte) : Option (Builder n) :=
  match coapAddOption s.pdu option.1 option.2 with
  | .ok (some pdu) => some ⟨pdu, s.added ++ [option]⟩
  | .ok none => some s
  | .error _ => none

/-! ## What is in the buffer -/

/-- The bytes of options one after another. -/
def writtenAll (number : ℕ) : List (Word × List Byte) → List Byte
  | [] => []
  | o :: options => written (o.1.toNat - number) o.2 ++ writtenAll o.1.toNat options

/-- The number the next option counts from. -/
def lastNumber (number : ℕ) : List (Word × List Byte) → ℕ
  | [] => number
  | o :: options => lastNumber o.1.toNat options

/-- The message so far. -/
structure Wrote {n : ℕ} (pdu : Pdu n) (bytes : List Byte) : Prop where
  hdr : ∃ room, pdu.hdr.toList = bytes ++ room
  length : pdu.length = bytes.length

section Build

variable {n number : ℕ} {pdu : Pdu n} {bytes data token : List Byte} {type : Word}
  {options : List (Word × List Byte)} {option : Word × List Byte} {s t : Builder n}

lemma writtenAll_append :
    writtenAll number (options ++ [option]) =
      writtenAll number options ++
        written (option.1.toNat - lastNumber number options) option.2 := by
  induction options generalizing number with
  | nil => exact List.append_nil _
  | cons o options ih => rw [List.cons_append, writtenAll, ih, writtenAll, lastNumber,
      List.append_assoc]

@[simp] lemma lastNumber_append :
    lastNumber number (options ++ [option]) = option.1.toNat := by
  induction options generalizing number with
  | nil => rfl
  | cons o options ih => rw [List.cons_append, lastNumber, ih]

/-- The room of the buffer behind the message. -/
lemma Wrote.room (h : Wrote pdu bytes) :
    ∃ room, pdu.hdr.toList = bytes ++ room ∧ room.length = n - pdu.length := by
  obtain ⟨room, hlist⟩ := h.hdr
  have hlength := length_room hlist
  exact ⟨room, hlist, by rw [h.length]; omega⟩

/-- What becomes of an option: taken, refused, or written over the end of the buffer. -/
lemma coapAddOption_cases (data : List Byte) (h : Wrote pdu bytes)
    (hnumber : pdu.maxDelta ≤ type.toNat) :
    ((written (type.toNat - pdu.maxDelta) data).length ≤ n - pdu.length →
      ∃ pdu', coapAddOption pdu type data = .ok (some pdu') ∧ pdu'.maxDelta = type.toNat ∧
        pdu'.data = none ∧ Wrote pdu' (bytes ++ written (type.toNat - pdu.maxDelta) data)) ∧
    (Spills (n - pdu.length) (type.toNat - pdu.maxDelta) data.length →
      ¬ Succeeds (coapAddOption pdu type data)) ∧
    (n - pdu.length < (written (type.toNat - pdu.maxDelta) data).length →
      ¬ Spills (n - pdu.length) (type.toNat - pdu.maxDelta) data.length →
      coapAddOption pdu type data = .ok none) := by
  obtain ⟨room, hlist, hroom⟩ := h.room
  obtain ⟨hfits, hspills, hrefused⟩ :=
    coapOptEncode_cases (type.toNat - pdu.maxDelta) data hlist
  rw [← h.length, hroom] at hfits hspills hrefused
  rw [coapAddOption, if_neg (not_lt.mpr hnumber)]
  refine ⟨fun hle => ?_, fun hspill hsucceeds => ?_, fun hlt hnot => ?_⟩
  · obtain ⟨hdr, hencode, hlist'⟩ := hfits hle
    refine ⟨_, by rw [hencode]; rfl, rfl, rfl,
      ⟨room.drop (written (type.toNat - pdu.maxDelta) data).length, ?_⟩, ?_⟩
    · exact hlist'.trans (List.append_assoc ..).symm
    · rw [List.length_append, h.length]
  · obtain ⟨r, hencode, -⟩ := succeeds_bind_iff.mp hsucceeds
    exact hspills hspill ⟨r, hencode⟩
  · rw [hrefused hlt hnot]
    rfl

/-- The call writes over the end of the buffer. -/
def Overflows (s : Builder n) (option : Word × List Byte) : Prop :=
  s.pdu.maxDelta ≤ option.1.toNat ∧
    Spills (n - s.pdu.length) (option.1.toNat - s.pdu.maxDelta) option.2.length

/-- The options taken so far are what stands behind the token, and there is no payload. -/
structure Builder.Inv (head : List Byte) (s : Builder n) : Prop where
  wrote : Wrote s.pdu (head ++ writtenAll 0 s.added)
  data : s.pdu.data = none
  maxDelta : s.pdu.maxDelta = lastNumber 0 s.added
  ascending : s.added.Pairwise fun a b => a.1.toNat ≤ b.1.toNat

lemma le_lastNumber (number : ℕ) (h : options.Pairwise fun a b => a.1.toNat ≤ b.1.toNat) :
    ∀ o ∈ options, o.1.toNat ≤ lastNumber number options := by
  induction options generalizing number with
  | nil => exact List.forall_mem_nil _
  | cons o options ih =>
    obtain ⟨hfirst, hrest⟩ := List.pairwise_cons.mp h
    rw [List.forall_mem_cons, lastNumber]
    refine ⟨?_, ih o.1.toNat hrest⟩
    cases options with
    | nil => exact le_rfl
    | cons o' options =>
      have hnext : o'.1.toNat ≤ lastNumber o.1.toNat (o' :: options) :=
        ih o.1.toNat hrest o' List.mem_cons_self
      exact (hfirst o' List.mem_cons_self).trans hnext

/-- A call takes the option, refuses it, or overflows. -/
lemma step_cases {head : List Byte} (h : s.Inv head) (option : Word × List Byte) :
    (Overflows s option ∧ s.step option = none) ∨
      (¬ Overflows s option ∧ (s.step option = some s ∨
        ∃ pdu', s.step option = some ⟨pdu', s.added ++ [option]⟩ ∧
          s.pdu.maxDelta ≤ option.1.toNat ∧ pdu'.maxDelta = option.1.toNat ∧ pdu'.data = none ∧
          Wrote pdu' (head ++ writtenAll 0 s.added ++
            written (option.1.toNat - s.pdu.maxDelta) option.2))) := by
  by_cases hnumber : s.pdu.maxDelta ≤ option.1.toNat
  · obtain ⟨hfits, hspills, hrefused⟩ := coapAddOption_cases option.2 h.wrote hnumber
    by_cases hover : Overflows s option
    · refine .inl ⟨hover, ?_⟩
      have hfail := hspills hover.2
      rw [Builder.step]
      cases hcall : coapAddOption s.pdu option.1 option.2 with
      | error fault => rfl
      | ok r => exact absurd ⟨r, hcall⟩ hfail
    · refine .inr ⟨hover, ?_⟩
      rcases Nat.lt_or_ge (n - s.pdu.length)
          (written (option.1.toNat - s.pdu.maxDelta) option.2).length with hlt | hle
      · left
        rw [Builder.step, hrefused hlt fun hspill => hover ⟨hnumber, hspill⟩]
      · right
        obtain ⟨pdu', hcall, hmax, hdata, hwrote⟩ := hfits hle
        exact ⟨pdu', by rw [Builder.step, hcall], hnumber, hmax, hdata, hwrote⟩
  · refine .inr ⟨fun hover => hnumber hover.1, .inl ?_⟩
    rw [Builder.step, coapAddOption, if_pos (not_le.mp hnumber)]

lemma step_inv {head : List Byte} (h : s.Inv head) (hstep : s.step option = some t) :
    t.Inv head := by
  rcases step_cases h option with
    ⟨-, hnone⟩ | ⟨-, hsame | ⟨pdu', hsome, hnumber, hmax, hdata, hwrote⟩⟩
  · rw [hnone] at hstep
    cases hstep
  · rw [hsame, Option.some.injEq] at hstep
    exact hstep ▸ h
  · rw [hsome, Option.some.injEq] at hstep
    subst hstep
    refine ⟨?_, hdata, hmax.trans lastNumber_append.symm, ?_⟩
    · rw [writtenAll_append, ← h.maxDelta, ← List.append_assoc]
      exact hwrote
    · rw [List.pairwise_append]
      refine ⟨h.ascending, List.pairwise_singleton _ _, ?_⟩
      intro o ho o' ho'
      rw [List.mem_singleton.mp ho']
      exact (le_lastNumber 0 h.ascending o ho).trans (h.maxDelta ▸ hnumber)

/-- **Options in any order.** After any calls of `coap_add_option` the message is its head and the
options that were taken, in the order of their numbers. -/
theorem run_inv {head : List Byte} {calls : List (Word × List Byte)} (h : s.Inv head)
    (hrun : Machine.run Builder.step s calls = some t) : t.Inv head :=
  Machine.run_invariant (fun _ _ _ h hstep => step_inv h hstep) h hrun

/-- **Where building leaves the buffer.** A run of calls stays in the buffer exactly if none of them
overflows: if no header ends one byte behind the room that is left. -/
theorem run_inside_iff {head : List Byte} {calls : List (Word × List Byte)} (h : s.Inv head) :
    (∃ t, Machine.run Builder.step s calls = some t) ↔
      Machine.Along Builder.step (fun s option => ¬ Overflows s option) s calls := by
  induction calls generalizing s with
  | nil => exact iff_of_true ⟨s, rfl⟩ trivial
  | cons option calls ih =>
    simp only [Machine.run_cons_eq_some, Machine.Along]
    rcases step_cases h option with ⟨hover, hnone⟩ | ⟨hover, hsome⟩
    · rw [hnone]
      simp [hover]
    · obtain ⟨s', hs'⟩ : ∃ s', s.step option = some s' := by
        rcases hsome with hsame | ⟨pdu', hsome, -⟩
        · exact ⟨_, hsame⟩
        · exact ⟨_, hsome⟩
      simp only [hs', Option.some.injEq, exists_eq_left', Option.mem_some_iff, forall_eq', hover,
        not_false_eq_true, true_and]
      exact ih (step_inv h hs')

/-- The header and the token of a message. -/
def headOf (type code : Byte) (id : Word) (token : List Byte) : List Byte :=
  firstByte 1 (type.toNat % 4) token.length :: code :: (wordBytes id ++ token)

/-- `coap_pdu_init` and `coap_add_token`: a message with the token and nothing behind it. -/
lemma exists_head (kind code : Byte) (id : Word) (hn : n ≤ maxPduSize) (htoken : token.length ≤ 8)
    (hroom : token.length + 4 ≤ n) :
    ∃ pdu₀ pdu : Pdu n, coapPduInit kind code id n = .ok (some pdu₀) ∧
      coapAddToken pdu₀ token = .ok (some pdu) ∧
      Builder.Inv (headOf kind code id token) ⟨pdu, []⟩ := by
  have hkind : kind.toNat % 4 < 4 := Nat.mod_lt _ (by decide)
  obtain ⟨hdr₀, hstore, hlist⟩ := storeAll_front (Vector.replicate n (0 : Byte))
    (show ([firstByte 1 (kind.toNat % 4) 0, code] ++ wordBytes id).length ≤ n by
      rw [List.length_append, length_wordBytes]
      exact (show 4 ≤ n by omega))
  have hinit : coapPduInit kind code id n = .ok (some ⟨hdr₀, 0, 4, none, hn⟩) := by
    rw [coapPduInit, if_neg (not_lt.mpr hn), dif_neg (by omega), hstore]
    rfl
  have hlist₀ : hdr₀.toList = [] ++ firstByte 1 (kind.toNat % 4) 0 :: (code :: (wordBytes id ++
      (Vector.replicate n (0 : Byte)).toList.drop 4)) := hlist
  obtain ⟨hdr₁, hfirst, hlist₁⟩ :=
    store_eq_ok (firstByte 1 (kind.toNat % 4) token.length) hlist₀
  have hlist₁' : hdr₁.toList =
      (firstByte 1 (kind.toNat % 4) token.length :: code :: wordBytes id) ++
        (Vector.replicate n (0 : Byte)).toList.drop 4 := hlist₁
  obtain ⟨hdr₂, htokenStore, hlist₂⟩ := storeAll_room token hlist₁' (by
    rw [List.length_drop, Vector.length_toList]
    omega)
  have hbyte : BitVec.ofNat 8 ((firstByte 1 (kind.toNat % 4) 0).toNat / 16 * 16 + token.length) =
      firstByte 1 (kind.toNat % 4) token.length := by
    rw [toNat_firstByte (by decide) hkind (by decide), firstByte]
    congr 1
    omega
  refine ⟨_, ⟨hdr₂, 0, token.length + 4, none, hn⟩, hinit, ?_,
    ⟨⟨?_, ?_⟩, rfl, rfl, List.Pairwise.nil⟩⟩
  · rw [coapAddToken, if_neg (by omega)]
    show (load hdr₀ 0 >>= _) = _
    have hload : load hdr₀ 0 = .ok (firstByte 1 (kind.toNat % 4) 0) := load_eq_ok hlist₀
    have hfirst' : store hdr₀ 0 (firstByte 1 (kind.toNat % 4) token.length) = .ok hdr₁ := hfirst
    have htokenStore' : storeAll hdr₁ 4 token = .ok hdr₂ := htokenStore
    rw [hload, ok_bind, hbyte, hfirst', ok_bind, htokenStore']
    rfl
  · refine ⟨((Vector.replicate n (0 : Byte)).toList.drop 4).drop token.length, ?_⟩
    rw [writtenAll, List.append_nil]
    exact hlist₂
  · rw [writtenAll, List.append_nil, headOf, List.length_cons, List.length_cons, List.length_append,
      length_wordBytes]
    show token.length + 4 = _
    omega

/-- `coap_add_data` puts the payload behind the options, or refuses it. -/
lemma coapAddData_cases (data : List Byte) (h : Wrote pdu bytes) (hnone : pdu.data = none) :
    (n < (bytes ++ payloadPart data).length → coapAddData pdu data = .ok none) ∧
    ((bytes ++ payloadPart data).length ≤ n →
      ∃ pdu', coapAddData pdu data = .ok (some pdu') ∧ Wrote pdu' (bytes ++ payloadPart data) ∧
        (data ≠ [] → pdu'.data = some (bytes.length + 1))) := by
  obtain ⟨room, hlist, hroom⟩ := h.room
  have hn := length_room hlist
  rw [List.length_append, length_payloadPart, coapAddData, if_neg (not_not.mpr hnone)]
  by_cases hnil : data = []
  · subst hnil
    rw [if_pos rfl]
    refine ⟨fun hlt => by omega, fun _ => ⟨pdu, if_pos rfl, ?_, fun hne => absurd rfl hne⟩⟩
    rwa [payloadPart, if_pos rfl, List.append_nil]
  · have hpos := List.length_pos_of_ne_nil hnil
    rw [if_neg hnil]
    constructor
    · intro hlt
      rw [if_neg (by omega), if_pos (by rw [h.length]; omega)]
    · intro hle
      obtain ⟨hdr, hstore, hlist'⟩ := storeAll_room (marker :: data) hlist (by
        rw [hroom, List.length_cons, h.length]
        omega)
      rw [← h.length] at hstore
      obtain ⟨hdr₁, hmarker, hdata⟩ := bind_eq_ok_iff.mp hstore
      refine ⟨⟨hdr, pdu.maxDelta, pdu.length + (data.length + 1), some (pdu.length + 1),
        pdu.maxSize_le⟩, ?_, ⟨⟨room.drop (marker :: data).length, ?_⟩, ?_⟩,
        fun _ => by rw [h.length]⟩
      · rw [if_neg (by omega), if_neg (by rw [h.length]; omega), hmarker, ok_bind, hdata]
        rfl
      · rw [payloadPart, if_neg hnil]
        exact hlist'
      · rw [List.length_append, length_payloadPart, if_neg hnil]
        exact congrArg (· + (data.length + 1)) h.length

end Build

end Vng.Libcoap
