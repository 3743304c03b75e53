import Kinglet.Js.Utf8

/-!
# Decoding methods of the custom rules language

`base64Decode`, `urlDecode`, `urlDecodeUni` and `utf8ToUnicode`.
-/

namespace Kinglet.Armor

open Js

/-! ## Base64 -/

/-- The six bits of a base64 letter. -/
def base64Value (u : UInt16) : Option ℕ :=
  if 65 ≤ u && u ≤ 90 then some (u.toNat - 65)
  else if 97 ≤ u && u ≤ 122 then some (u.toNat - 71)
  else if isDigit u then some (u.toNat + 4)
  else if u = unit '+' then some 62
  else if u = unit '/' then some 63
  else none

/-- The bytes of a sequence of letters; the bits of an unfinished byte are dropped. -/
def base64Bytes : List ℕ → JsString
  | a :: b :: c :: d :: rest =>
      (a * 4 + b / 16).toUInt16 :: (b % 16 * 16 + c / 4).toUInt16 :: (c % 4 * 64 + d).toUInt16 ::
        base64Bytes rest
  | [a, b, c] => [(a * 4 + b / 16).toUInt16, (b % 16 * 16 + c / 4).toUInt16]
  | [a, b] => [(a * 4 + b / 16).toUInt16]
  | _ => []

/-- `atob(text)`, `none` when it throws: white space is dropped, then up to two pad characters of a
text of full length. -/
def atob (text : JsString) : Option JsString := do
  let data := text.filter fun u => !(u = 9 || u = 10 || u = 12 || u = 13 || u = 32)
  let data :=
    if data.length % 4 ≠ 0 then data
    else if endsWith data "==" then data.take (data.length - 2)
    else if endsWith data "=" then data.take (data.length - 1)
    else data
  if data.length % 4 = 1 then none
  return base64Bytes (← data.mapM base64Value)

def base64Decode (value : JsString) : JsString :=
  let normalized := value.map fun u =>
    if u = unit '_' then unit '/' else if u = unit '-' then unit '+' else u
  let pad := normalized.length % 4
  let padded :=
    if pad = 0 then normalized else normalized ++ List.replicate (4 - pad) (unit '=')
  (atob padded).getD []

/-! ## Percent-encoding -/

/-- The bytes of the longest run of `%XX` at the front. -/
def percentRun : JsString → List ℕ
  | 37 :: a :: b :: rest =>
      match hexValue a, hexValue b with
      | some x, some y => (x * 16 + y) :: percentRun rest
      | _, _ => []
  | _ => []

/-- The code unit of `%uXXXX` at the front, after the percent sign. -/
def unicodeEscape : JsString → Option UInt16
  | u :: a :: b :: c :: d :: _ =>
      if u = unit 'u' || u = unit 'U' then do
        let a ← hexValue a
        let b ← hexValue b
        let c ← hexValue c
        let d ← hexValue d
        return (((a * 16 + b) * 16 + c) * 16 + d).toUInt16
      else none
  | _ => none

/-- `decodePercent`: after `skipped` more code units. A run of bytes that is not UTF-8 gives up its
first escape as it stands and is read again from the next one. -/
def decodePercent (unicode : Bool) (skipped : ℕ) : JsString → JsString
  | [] => []
  | u :: rest =>
      if 0 < skipped then decodePercent unicode (skipped - 1) rest
      else if u = unit '+' then 32 :: decodePercent unicode 0 rest
      else if u ≠ unit '%' then u :: decodePercent unicode 0 rest
      else
        match if unicode then unicodeEscape rest else none with
        | some v => v :: decodePercent unicode 5 rest
        | none =>
            match percentRun (u :: rest) with
            | [] => u :: decodePercent unicode 0 rest
            | bytes =>
                match decodeFatal bytes with
                | some text => text ++ decodePercent unicode (3 * bytes.length - 1) rest
                | none => (u :: rest).take 3 ++ decodePercent unicode 2 rest

def urlDecode (input : JsString) : JsString := decodePercent false 0 input

def urlDecodeUni (input : JsString) : JsString := decodePercent true 0 input

/-- `utf8ToUnicode`: code points beyond ASCII as `%u` and their hexadecimal text. -/
def utf8ToUnicode (value : JsString) : JsString :=
  (codePoints value).flatMap fun cp =>
    if cp ≤ 0x7F then fromCodePoint cp else js "%u" ++ padStart 4 (natText 16 cp)

end Kinglet.Armor
