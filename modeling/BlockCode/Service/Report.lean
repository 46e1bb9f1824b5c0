import BlockCode.Service.Body

/-! What can be repeated to the sender of a request. A response is well-formed text with finite
numbers, so not every value of a body can be part of one. -/

namespace BlockCode.Report

/-- Fields with such names are left out when a value is repeated. -/
def isHidden (name : Spelling) : Bool :=
  ['_', 's', 'a'].isPrefixOf name.shown.toList

mutual

/-- Tells whether a value can be repeated. -/
def isSendable : Json → Bool
  -- Numbers that are too large to be stored and texts that are none cannot be sent.
  | .null | .bool _ | .int _ => true
  | .decimal mantissa exponent => Binary64.ofDecimal mantissa.natAbs exponent ≠ .infinite
  | .text value => value.isText
  | .array items => areSendable items
  | .object fields => areSendableFields fields

/-- Tells whether some values can be repeated. -/
def areSendable : List Json → Bool
  -- One item that cannot be sent is enough.
  | [] => true
  | item :: items => isSendable item && areSendable items

/-- Tells whether some fields can be repeated; of repeated names only the last field counts. -/
def areSendableFields : List (Spelling × Json) → Bool
  | [] => true
  | (name, value) :: fields =>
    -- A field that is overwritten is never written, and a hidden one neither.
    (isHidden name || fields.any (·.1 = name) || (name.isText && isSendable value)) &&
      areSendableFields fields

end

end BlockCode.Report
