import Vng.Host

/-!
# `CoapPDU`

A message of the constrained application protocol in one block of memory, which either comes from
outside or grows with the message. `validate` looks at a message that was received, `getOptions` and
`getURI` read it, `addOption` puts an option in front of those with greater numbers.
-/

namespace Vng.Cantcoap

open Memory

/-- Where the payload is: at a place behind `_pdu`, or in memory that has been given back. -/
inductive PayloadPointer
  | null
  | place (i : ℕ)
  | stale
deriving DecidableEq, Repr

/-- `CoapPDU`, with the `_bufferLength` bytes behind `_pdu`. -/
structure CoapPdu where
  pdu : List Byte
  pduLength : ℕ
  constructedFromBuffer : Bool
  payloadPointer : PayloadPointer
  payloadLength : ℕ
  numOptions : ℕ
  maxAddedOptionNumber : Word
deriving DecidableEq, Repr

/-- `CoapPDU::CoapOption`. -/
structure CoapOption where
  optionDelta : Word
  optionNumber : Word
  optionValueLength : Word
  totalLength : ℕ
  optionPointer : ℕ
  optionValuePointer : ℕ
deriving DecidableEq, Repr

/-- `COAP_OPTION_URI_PATH`. -/
def uriPath : Word := 11

/-- `COAP_OPTION_URI_QUERY`. -/
def uriQuery : Word := 15

/-! ## The header -/

/-- `CoapPDU()`: four bytes from `calloc`, of version 1. -/
def CoapPdu.fresh : CoapPdu := ⟨[0x40, 0, 0, 0], 4, false, .null, 0, 0, 0⟩

/-- `CoapPDU(buffer, bufferLength, pduLength)` for a message in a buffer. -/
def CoapPdu.fromBuffer (buffer : List Byte) (pduLength : ℕ) : CoapPdu :=
  ⟨buffer, pduLength, true, .null, 0, 0, 0⟩

def CoapPdu.getVersion (s : CoapPdu) : Checked Byte := do
  let first ← loadAt s.pdu 0
  .ok ((first &&& 0xC0) >>> 6)

def CoapPdu.getType (s : CoapPdu) : Checked Byte := do
  let first ← loadAt s.pdu 0
  .ok (first &&& 0x30)

def CoapPdu.setType (s : CoapPdu) (mt : Byte) : Checked CoapPdu := do
  let pdu ← updateAt s.pdu 0 (· &&& 0xCF)
  let pdu ← updateAt pdu 0 (· ||| mt)
  .ok { s with pdu := pdu }

def CoapPdu.getTokenLength (s : CoapPdu) : Checked ℕ := do
  let first ← loadAt s.pdu 0
  .ok (first &&& 0x0F).toNat

def CoapPdu.setTokenLength (s : CoapPdu) (tokenLength : Byte) : Checked CoapPdu :=
  if 8 < tokenLength then .ok s else do
    let pdu ← updateAt s.pdu 0 (· &&& 0xF0)
    let pdu ← updateAt pdu 0 (· ||| tokenLength)
    .ok { s with pdu := pdu }

def CoapPdu.getCode (s : CoapPdu) : Checked Byte := loadAt s.pdu 1

def CoapPdu.setCode (s : CoapPdu) (code : Byte) : Checked CoapPdu := do
  let pdu ← storeAt s.pdu 1 code
  .ok { s with pdu := pdu }

/-- The bytes of the message id, in the order of the network. -/
def CoapPdu.getMessageId (s : CoapPdu) : Checked Word := do
  let hi ← loadAt s.pdu 2
  let lo ← loadAt s.pdu 3
  .ok (wordOf lo hi)

/-- `endian_store16`. -/
def endianStore16 (pdu : List Byte) (i : ℕ) (num : Word) : Checked (List Byte) :=
  copyTo pdu i [(num >>> 8).setWidth 8, num.setWidth 8]

def CoapPdu.setMessageId (s : CoapPdu) (messageId : Word) : Checked CoapPdu := do
  let pdu ← endianStore16 s.pdu 2 messageId
  .ok { s with pdu := pdu }

/-! ## The fields of an option -/

def computeExtraBytes (n : Word) : ℕ := if n < 13 then 0 else if n < 269 then 1 else 2

/-- `endian_load16`. -/
def endianLoad16 (pdu : List Byte) (i : ℕ) : Checked Word := do
  let hi ← loadAt pdu i
  let lo ← loadAt pdu (i + 1)
  .ok (wordOf lo hi)

def getOptionDelta (pdu : List Byte) (option : ℕ) : Checked Word := do
  let first ← loadAt pdu option
  let delta : Word := ((first &&& 0xF0) >>> 4).setWidth 16
  if delta < 13 then .ok delta
  else if delta = 13 then do
    let b ← loadAt pdu (option + 1)
    .ok (b.setWidth 16 + 13)
  else if delta = 14 then do
    let value ← endianLoad16 pdu (option + 1)
    .ok (value + 269)
  else .ok delta

def getOptionValueLength (pdu : List Byte) (option : ℕ) : Checked Word := do
  let first ← loadAt pdu option
  let delta : Word := ((first &&& 0xF0) >>> 4).setWidth 16
  let length : Word := (first &&& 0x0F).setWidth 16
  if length < 13 then .ok length
  else
    let offset := 1 + if delta = 13 then 1 else if delta = 14 then 2 else 0
    if length = 13 then do
      let b ← loadAt pdu (option + offset)
      .ok (b.setWidth 16 + 13)
    else do
      let value ← endianLoad16 pdu (option + offset)
      .ok (value + 269)

/-- The option with its header and what is behind it. -/
def totalLengthOf (optionDelta optionValueLength : Word) : ℕ :=
  1 + computeExtraBytes optionDelta + computeExtraBytes optionValueLength + optionValueLength.toNat

/-! ## Looking at a message that was received -/

/-- The codes between the groups of codes are refused. -/
def validCode (code : Byte) : Bool :=
  ¬ ((0x1F < code ∧ code < 0x41) ∨ (0x45 < code ∧ code < 0x80) ∨ (0x86 < code ∧ code < 0x8C) ∨
    code = 0x8E ∨ (0x8F < code ∧ code < 0xA0) ∨ 0xA5 < code)

/-- The walk over the options in `validate`. -/
def CoapPdu.validateLoop (s : CoapPdu) :
    (fuel optionPos bytesRemaining numOptions : ℕ) → Checked (Bool × CoapPdu)
  | 0, _, _, _ => .error .diverges
  | fuel + 1, optionPos, bytesRemaining, numOptions =>
    if 0 < bytesRemaining then do
      let optionHeader ← loadAt s.pdu optionPos
      if optionHeader = 0xFF then
        if 1 < bytesRemaining then
          .ok (true, { s with
            payloadPointer := .place (optionPos + 1), payloadLength := bytesRemaining - 1,
            numOptions := numOptions })
        else .ok (false, { s with payloadPointer := .null, payloadLength := 0 })
      else
        let upperNibble := (optionHeader &&& 0xF0) >>> 4
        let lowerNibble := optionHeader &&& 0x0F
        if upperNibble = 0x0F ∨ lowerNibble = 0x0F then .ok (false, s)
        else
          -- `computeExtraBytes` is asked for the nibbles, not for the fields: 14 needs one byte
          let headerBytesNeeded := computeExtraBytes (upperNibble.setWidth 16)
          if bytesRemaining - 1 < headerBytesNeeded then .ok (false, s)
          else
            let headerBytesNeeded :=
              headerBytesNeeded + computeExtraBytes (lowerNibble.setWidth 16)
            if bytesRemaining - 1 < headerBytesNeeded then .ok (false, s)
            else do
              let optionDelta ← getOptionDelta s.pdu optionPos
              let optionValueLength ← getOptionValueLength s.pdu optionPos
              let totalLength := totalLengthOf optionDelta optionValueLength
              if s.pduLength < optionPos + totalLength then .ok (false, s)
              else
                s.validateLoop fuel (optionPos + totalLength) (bytesRemaining - totalLength)
                  (numOptions + 1)
    else
      .ok (true, { s with payloadPointer := .null, payloadLength := 0, numOptions := numOptions })

/-- Whether the message is one, and `true` for 1. -/
def CoapPdu.validate (s : CoapPdu) : Checked (Bool × CoapPdu) :=
  if s.pduLength < 4 then .ok (false, s) else do
    let version ← s.getVersion
    if version ≠ 1 then .ok (false, s) else do
      let tokenLength ← s.getTokenLength
      if 8 < tokenLength then .ok (false, s)
      else if s.pduLength < 4 + tokenLength then .ok (false, s)
      else do
        let code ← s.getCode
        if validCode code then
          let optionPos := 4 + tokenLength
          if optionPos = s.pduLength then .ok (true, { s with numOptions := 0, payloadLength := 0 })
          else s.validateLoop (s.pduLength + 1) optionPos (s.pduLength - optionPos) 0
        else .ok (false, s)

/-! ## Reading a message -/

/-- The loop of `getOptions`, with the place and the number it has come to. -/
def optionsLoop (pdu : List Byte) : (count optionPos : ℕ) → Word → Checked (List CoapOption)
  | 0, _, _ => .ok []
  | count + 1, optionPos, optionNumber => do
    let optionDelta ← getOptionDelta pdu optionPos
    let optionNumber := optionNumber + optionDelta
    let optionValueLength ← getOptionValueLength pdu optionPos
    let totalLength := totalLengthOf optionDelta optionValueLength
    let options ← optionsLoop pdu count (optionPos + totalLength) optionNumber
    .ok (⟨optionDelta, optionNumber, optionValueLength, totalLength, optionPos,
      optionPos + totalLength - optionValueLength.toNat⟩ :: options)

/-- The empty list for `NULL`. -/
def CoapPdu.getOptions (s : CoapPdu) : Checked (List CoapOption) :=
  if s.numOptions = 0 then .ok [] else do
    let tokenLength ← s.getTokenLength
    optionsLoop s.pdu s.numOptions (4 + tokenLength) 0

/-- What the loop of `getURI` writes with. -/
structure UriState where
  dst : List Byte
  place : ℕ
  bytesLeft : ℕ
  separator : Byte
  firstQuery : Bool
deriving DecidableEq, Repr

/-- A query changes the separator, and the first one the separator before it. -/
def UriState.separate (u : UriState) (optionNumber : Word) : Checked UriState :=
  if optionNumber = uriQuery then do
    -- `?` for what stands in front, `&` from now on
    let dst ← if u.firstQuery then storeAt u.dst (u.place - 1) 0x3F else .ok u.dst
    .ok { u with dst := dst, separator := 0x26, firstQuery := false }
  else .ok u

/-- What the call returns, the buffer and the length. -/
def uriLoop (pdu : List Byte) (dstlen outLen : ℕ) :
    List CoapOption → UriState → Checked (ℕ × List Byte × ℕ)
  | [], u => do
    -- remove the separator behind the last component
    let dst ← storeAt u.dst (u.place - 1) 0
    .ok (0, dst, dstlen - 1 - (u.bytesLeft + 1))
  | o :: options, u =>
    if o.optionNumber = uriPath ∨ o.optionNumber = uriQuery then do
      let u ← u.separate o.optionNumber
      let oLen := o.optionValueLength.toNat
      if u.bytesLeft < oLen then .ok (1, u.dst, outLen)
      else do
        let value ← loadAll pdu o.optionValuePointer oLen
        if value = [0x2F] then do
          let dst ← storeAt u.dst u.place 0
          .ok (0, dst, 1)
        else do
          let dst ← copyTo u.dst u.place value
          if 1 ≤ u.bytesLeft - oLen then do
            let dst ← storeAt dst (u.place + oLen) u.separator
            uriLoop pdu dstlen outLen options
              { u with
                dst := dst, place := u.place + oLen + 1, bytesLeft := u.bytesLeft - oLen - 1 }
          else .ok (1, dst, outLen)
    else uriLoop pdu dstlen outLen options u

/-- `getURI` into a buffer of `dst.length` bytes, with what `*outLen` was before. -/
def CoapPdu.getUri (s : CoapPdu) (dst : List Byte) (outLen : ℕ) : Checked (ℕ × List Byte × ℕ) :=
  if dst.length = 0 then .error .outOfBounds
  else if s.numOptions = 0 then do
    let dst ← storeAt dst 0 0
    .ok (0, dst, 0)
  else do
    let options ← s.getOptions
    if 1 ≤ dst.length - 1 then do
      let dst ← storeAt dst 0 0x2F
      uriLoop s.pdu dst.length outLen options ⟨dst, 1, dst.length - 2, 0x2F, true⟩
    else .ok (1, dst, outLen)

/-- `getPayloadCopy`; `none` for `NULL`. -/
def CoapPdu.getPayloadCopy (s : CoapPdu) : Checked (Option (List Byte)) :=
  if s.payloadLength = 0 then .ok none
  else
    match s.payloadPointer with
    | .place payload => do
      let bytes ← loadAll s.pdu payload s.payloadLength
      .ok (some bytes)
    | _ => .error .outOfBounds

/-- `printHuman`, as far as it reads the message. -/
def CoapPdu.printHuman (s : CoapPdu) : Checked Unit := do
  let _ ← s.getVersion
  let _ ← s.getType
  let tokenLength ← s.getTokenLength
  let _ ← s.getCode
  let _ ← s.getMessageId
  let _ ← loadAll s.pdu 4 tokenLength
  let options ← s.getOptions
  let _ ← options.mapM fun o => loadAll s.pdu o.optionValuePointer o.optionValueLength.toNat
  -- the loop over the payload reads the bytes that `getPayloadCopy` copies
  let _ ← s.getPayloadCopy
  .ok ()

/-! ## Putting a message together -/

/-- `setVersion`; it returns 1 where it does something. -/
def CoapPdu.setVersion (s : CoapPdu) (version : Byte) : Checked (ℕ × CoapPdu) :=
  if 3 < version then .ok (0, s) else do
    let pdu ← updateAt s.pdu 0 (· &&& 0x3F)
    let pdu ← updateAt pdu 0 (· ||| (version <<< 6))
    .ok (1, { s with pdu := pdu })

section Growing

-- what new memory holds
variable (fresh : ℕ → Byte)

/-- A message of another length; what has its own memory may have to move. -/
def CoapPdu.resize (s : CoapPdu) (pduLength : ℕ) : CoapPdu :=
  if s.constructedFromBuffer then { s with pduLength := pduLength }
  else
    { s with
      pdu := realloc fresh s.pdu pduLength, pduLength := pduLength
      payloadPointer := if s.payloadPointer = .null then .null else .stale }

/-- A longer message; `none` where the buffer is too small for it. -/
def CoapPdu.allot (s : CoapPdu) (pduLength : ℕ) : Option CoapPdu :=
  if s.constructedFromBuffer ∧ s.pdu.length < pduLength then none
  else some (s.resize fresh pduLength)

/-- The loop of `shiftPDUUp`; it is given the places behind the two that it is at. -/
def shiftUpLoop (pdu : List Byte) : (shiftAmount dest src : ℕ) → Checked (List Byte)
  | 0, _, _ => .ok pdu
  | shiftAmount + 1, dest + 1, src + 1 => do
    let byte ← loadAt pdu src
    let pdu ← storeAt pdu dest byte
    shiftUpLoop pdu shiftAmount dest src
  | _, _, _ => .error .outOfBounds

def CoapPdu.shiftPduUp (s : CoapPdu) (shiftOffset shiftAmount : ℕ) : Checked (List Byte) :=
  if s.pduLength < shiftOffset then .error .outOfBounds
  else shiftUpLoop s.pdu shiftAmount s.pduLength (s.pduLength - shiftOffset)

/-- `shiftPDUDown`. -/
def shiftPduDown (pdu : List Byte) (startLocation shiftOffset : ℕ) : ℕ → Checked (List Byte)
  | 0 => .ok pdu
  | shiftAmount + 1 => do
    let byte ← loadAt pdu (startLocation + shiftOffset)
    let pdu ← storeAt pdu startLocation byte
    shiftPduDown pdu (startLocation + 1) shiftOffset shiftAmount

/-- A token of no bytes stands for `NULL` too; the length is a `uint8_t`. -/
def CoapPdu.setToken (s : CoapPdu) (token : List Byte) : Checked (ℕ × CoapPdu) :=
  let tokenLength := token.length % 256
  if tokenLength = 0 then .ok (1, s) else do
    let value ← loadAll token 0 tokenLength
    let oldTokenLength ← s.getTokenLength
    if tokenLength = oldTokenLength then do
      let pdu ← copyTo s.pdu 4 value
      .ok (0, { s with pdu := pdu })
    else
      -- `uint8_t`
      let oldPduLength := s.pduLength % 256
      let pduLength := s.pduLength + tokenLength - oldTokenLength
      if oldPduLength < pduLength then
        match s.allot fresh pduLength with
        | none => .ok (1, { s with pduLength := oldPduLength })
        | some s => do
          let pdu ← s.shiftPduUp (pduLength - oldPduLength) (pduLength - tokenLength - 4)
          let pdu ← copyTo pdu 4 value
          let s ← { s with pdu := pdu }.setTokenLength (BitVec.ofNat 8 tokenLength)
          .ok (0, s)
      else do
        let pdu ← copyTo s.pdu 4 value
        let pdu ← shiftPduDown pdu (4 + tokenLength) (oldPduLength - pduLength)
          (oldPduLength - oldTokenLength - 4)
        let s ← ({ s with pdu := pdu }.resize fresh pduLength).setTokenLength
          (BitVec.ofNat 8 tokenLength)
        .ok (0, s)

/-- The walk of `findInsertionPosition`: the place of the first option with a greater number, and
the number of the option before it. -/
def CoapPdu.findLoop (s : CoapPdu) (optionNumber : Word) :
    (fuel optionPos : ℕ) → (prevOptionNumber : Word) → Checked (ℕ × Word)
  | 0, _, _ => .error .diverges
  | fuel + 1, optionPos, prevOptionNumber =>
    if optionPos < s.pduLength then do
      let byte ← loadAt s.pdu optionPos
      if byte = 0xFF then .ok (optionPos, prevOptionNumber) else do
        let optionDelta ← getOptionDelta s.pdu optionPos
        let currentOptionNumber := prevOptionNumber + optionDelta
        let optionValueLength ← getOptionValueLength s.pdu optionPos
        if optionNumber < currentOptionNumber then .ok (optionPos, prevOptionNumber)
        else
          s.findLoop optionNumber fuel (optionPos + totalLengthOf optionDelta optionValueLength)
            currentOptionNumber
    else .ok (optionPos, prevOptionNumber)

def CoapPdu.findInsertionPosition (s : CoapPdu) (optionNumber : Word) : Checked (ℕ × Word) :=
  if s.maxAddedOptionNumber ≤ optionNumber then .ok (s.pduLength, s.maxAddedOptionNumber) else do
    let tokenLength ← s.getTokenLength
    if s.pduLength = 4 + tokenLength then .ok (s.pduLength, s.maxAddedOptionNumber)
    else s.findLoop optionNumber (s.pduLength + 1) (4 + tokenLength) 0

/-- The nibble of a distance and the bytes behind it, in a header that has no distance yet; with the
place of the last byte. -/
def storeOptionDelta (pdu : List Byte) (headerStart : ℕ) (optionDelta : Word) :
    Checked (List Byte × ℕ) :=
  if optionDelta < 13 then do
    let pdu ← updateAt pdu headerStart (· ||| (optionDelta <<< 4).setWidth 8)
    .ok (pdu, headerStart)
  else if optionDelta < 269 then do
    let pdu ← updateAt pdu headerStart (· ||| 0xD0)
    let pdu ← updateAt pdu (headerStart + 1) (· &&& 0)
    let pdu ← updateAt pdu (headerStart + 1) (· ||| (optionDelta - 13).setWidth 8)
    .ok (pdu, headerStart + 1)
  else do
    let pdu ← updateAt pdu headerStart (· ||| 0xE0)
    let pdu ← endianStore16 pdu (headerStart + 1) (optionDelta - 269)
    .ok (pdu, headerStart + 2)

def setOptionDelta (pdu : List Byte) (optionPosition : ℕ) (optionDelta : Word) :
    Checked (List Byte) := do
  let pdu ← updateAt pdu optionPosition (· &&& 0x0F)
  let (pdu, _) ← storeOptionDelta pdu optionPosition optionDelta
  .ok pdu

/-- The nibble of a length and the bytes behind it, with the place of the last byte and the length
that the variable holds then. -/
def storeOptionValueLength (pdu : List Byte) (headerStart insertionPosition : ℕ)
    (optionValueLength : Word) : Checked (List Byte × ℕ × Word) :=
  if optionValueLength < 13 then do
    let pdu ← updateAt pdu headerStart (· ||| (optionValueLength &&& 0x000F).setWidth 8)
    .ok (pdu, insertionPosition, optionValueLength)
  else if optionValueLength < 269 then do
    let pdu ← updateAt pdu headerStart (· ||| 0x0D)
    let pdu ← updateAt pdu (insertionPosition + 1) (· &&& 0)
    let pdu ← updateAt pdu (insertionPosition + 1) (· ||| (optionValueLength - 13).setWidth 8)
    .ok (pdu, insertionPosition + 1, optionValueLength)
  else do
    let pdu ← updateAt pdu headerStart (· ||| 0x0E)
    let optionValueLength := optionValueLength - 269
    let pdu ← endianStore16 pdu (insertionPosition + 1) optionValueLength
    .ok (pdu, insertionPosition + 2, optionValueLength)

def insertOption (pdu : List Byte) (insertionPosition : ℕ) (optionDelta optionValueLength : Word)
    (optionValue : List Byte) : Checked (List Byte) := do
  let headerStart := insertionPosition
  let pdu ← updateAt pdu headerStart (· &&& 0)
  let (pdu, insertionPosition) ← storeOptionDelta pdu headerStart optionDelta
  let (pdu, insertionPosition, optionValueLength) ←
    storeOptionValueLength pdu headerStart insertionPosition optionValueLength
  let value ← loadAll optionValue 0 optionValueLength.toNat
  copyTo pdu (insertionPosition + 1) value

/-- The option behind the new one gets a smaller distance. -/
def CoapPdu.moveNextOption (s : CoapPdu) (insertionPosition mallocLength : ℕ)
    (nextOptionDelta newNextOptionDelta : Word) : Checked (List Byte) := do
  let pdu ← s.shiftPduUp mallocLength (s.pduLength - (insertionPosition + mallocLength))
  let nextHeaderPos := insertionPosition + mallocLength
  let header ← loadAt pdu nextHeaderPos
  -- less the adjustment
  let nextHeaderPos :=
    nextHeaderPos + computeExtraBytes nextOptionDelta - computeExtraBytes newNextOptionDelta
  let pdu ← storeAt pdu nextHeaderPos header
  setOptionDelta pdu nextHeaderPos newNextOptionDelta

def CoapPdu.addOption (s : CoapPdu) (insertedOptionNumber : Word) (optionValue : List Byte) :
    Checked (ℕ × CoapPdu) := do
  let (insertionPosition, prevOptionNumber) ← s.findInsertionPosition insertedOptionNumber
  let optionValueLength : Word := BitVec.ofNat 16 optionValue.length
  let optionDelta := insertedOptionNumber - prevOptionNumber
  -- `uint16_t`
  let optionLength := totalLengthOf optionDelta optionValueLength % 65536
  if insertionPosition = s.pduLength then
    let s := { s with maxAddedOptionNumber := insertedOptionNumber }
    match s.allot fresh (s.pduLength + optionLength) with
    | none => .ok (1, s)
    | some s => do
      let pdu ← insertOption s.pdu insertionPosition optionDelta optionValueLength optionValue
      .ok (0, { s with pdu := pdu, numOptions := s.numOptions + 1 })
  else do
    let nextOptionDelta ← getOptionDelta s.pdu insertionPosition
    let nextOptionNumber := prevOptionNumber + nextOptionDelta
    let newNextOptionDelta := nextOptionNumber - insertedOptionNumber
    if optionLength + computeExtraBytes newNextOptionDelta < computeExtraBytes nextOptionDelta then
      -- a message that gets shorter
      .error .lengthError
    else
      let mallocLength :=
        optionLength + computeExtraBytes newNextOptionDelta - computeExtraBytes nextOptionDelta
      match s.allot fresh (s.pduLength + mallocLength) with
      | none => .ok (1, s)
      | some s => do
        let pdu ←
          s.moveNextOption insertionPosition mallocLength nextOptionDelta newNextOptionDelta
        let pdu ← insertOption pdu insertionPosition optionDelta optionValueLength optionValue
        .ok (0, { s with pdu := pdu, numOptions := s.numOptions + 1 })

/-- `COAP_OPTION_CONTENT_FORMAT`. -/
def contentFormat : Word := 12

def CoapPdu.setContentFormat (s : CoapPdu) (format : Word) : Checked (ℕ × CoapPdu) :=
  if format = 0 then s.addOption fresh contentFormat []
  else if format ≤ 0xFF then s.addOption fresh contentFormat [format.setWidth 8]
  else s.addOption fresh contentFormat [(format >>> 8).setWidth 8, format.setWidth 8]

/-- The pointer that is returned; `null` where there is no room. -/
def CoapPdu.mallocPayload (s : CoapPdu) (len : ℕ) : Checked (PayloadPointer × CoapPdu) :=
  if len = 0 then .ok (.null, s)
  else if len = s.payloadLength then .ok (s.payloadPointer, s)
  else
    let newLen :=
      if s.payloadLength ≠ 0 then s.pduLength + len - s.payloadLength else s.pduLength + len + 1
    match s.allot fresh newLen with
    | none => .ok (.null, s)
    | some grown =>
      if grown.payloadPointer = .null then do
        let pdu ← storeAt grown.pdu s.pduLength 0xFF
        let payloadPointer := .place (s.pduLength + 1)
        .ok (payloadPointer,
          { grown with pdu := pdu, payloadPointer := payloadPointer, payloadLength := len })
      else .ok (grown.payloadPointer, { grown with payloadLength := len })

def CoapPdu.setPayload (s : CoapPdu) (payload : List Byte) : Checked (ℕ × CoapPdu) := do
  let (payloadPointer, s) ← s.mallocPayload fresh payload.length
  match payloadPointer with
  | .null => .ok (1, s)
  | .place i => do
    let pdu ← copyTo s.pdu i payload
    .ok (0, { s with pdu := pdu })
  | .stale => .error .outOfBounds

end Growing

end Vng.Cantcoap
