import Vng.Coap.RoundTrip

/-!
# Critical options

A message with a critical option that is not known is not handled. A confirmable one is answered
with an error that carries such options back, in a buffer that is reckoned beforehand.
-/

namespace Vng.Libcoap

open Memory OptionList CoapMessage

/-- The cases of the `switch` of `coap_option_check_critical`: `COAP_OPTION_IF_MATCH`, `URI_HOST`,
`IF_NONE_MATCH`, `URI_PORT`, `URI_PATH`, `URI_QUERY`, `ACCEPT`, `PROXY_URI`, `PROXY_SCHEME`,
`BLOCK2` and `BLOCK1`. -/
def builtIn : List Word := [1, 3, 5, 7, 11, 15, 17, 35, 39, 23, 27]

/-- `COAP_OPTION_CONTENT_TYPE`. -/
def contentType : Word := 12

section Space

variable {n : ℕ} {memory head : List Byte} {s : Builder n} {o : Word × List Byte} {last : Word}
  {options : List (Word × List Byte)}

end Space

/-! ## The response -/

section Response

variable {maxSize n : ℕ} {pdu request : Pdu maxSize} {m : Message} {opts known : OptFilter}
  {numbers : Finset Word} {code : Byte} {options : List (Word × List Byte)}

/-- The options that are copied. -/
def copied (numbers : Finset Word) (m : Message) : List (Word × List Byte) :=
  (wrapped 0 m.items).filter fun o => decide (o.1 ∈ numbers.erase contentType)

/-- A critical option that neither the library nor the application knows. -/
def UnknownCritical (numbers : Finset Word) (type : Word) : Prop :=
  type &&& 0x01 ≠ 0 ∧ type ∉ builtIn ∧ type ∉ numbers

instance (numbers : Finset Word) (type : Word) : Decidable (UnknownCritical numbers type) :=
  inferInstanceAs (Decidable (_ ∧ _ ∧ _))

/-- The numbers that are put into the filter, as far as it has room. -/
def record (numbers : Finset Word) (options : List (Word × List Byte)) : Finset Word :=
  options.foldl (fun recorded o =>
    if UnknownCritical numbers o.1 then (opOnNumbers recorded o.1 .set).1 else recorded) ∅

end Response

end Vng.Libcoap
