import NekoLink.Ctl.Config
import NekoLink.Device.ApiGet
import NekoLink.Device.KeyGrammar

/-!
# Keys in the control plane

`decode_base64` and `base64_to_hex` of `nekolink-ctl/src/main.rs`, by which the keys of a
configuration are sent to a data plane. The padding may be missing or too long.

* `decodeBase64_digits`: the padding of a text does not matter.
* **`key_survives`**: the data plane reads the key that the text is of.
-/

namespace NekoLink.Ctl

open Wire Noise Device Text

/-- Convert a key in base64 to hexadecimal digits, as the data plane needs it. A text that cannot
be decoded stays as it is. -/
def base64ToHex (J : Codec) (b64 : List Char) : List Char :=
  match decodeBase64 J b64 with
  | some bytes => toHex bytes
  | none => b64

/-- The engine `STANDARD`, which insists on the padding. -/
structure Codec.Standard (J : Codec) : Prop where
  encode : J.base64Encode = Base64.encode
  strict : Base64.Strict J.base64Decode

section

variable {J : Codec} {bytes : List UInt8} {before after : List Char} {n : ℕ}

theorem solid_padded (bytes : List UInt8) (n : ℕ) :
    Solid (Base64.digits bytes ++ List.replicate n '=') := by
  have hall : Base64.alphabet.all (fun c => !isWhitespace c) = true := by decide
  have halphabet : ∀ c ∈ Base64.alphabet, isWhitespace c = false := by
    simpa only [List.all_eq_true, Bool.not_eq_true'] using hall
  refine Solid.append (fun c hc => halphabet c (Base64.mem_alphabet hc)) fun c hc => ?_
  rw [List.eq_of_mem_replicate hc]
  rfl

/-- The padding at the end is taken off. -/
theorem rdropWhile_padded (bytes : List UInt8) (n : ℕ) :
    (Base64.digits bytes ++ List.replicate n '=').rdropWhile (· == '=') = Base64.digits bytes := by
  have hdigits : (Base64.digits bytes).rdropWhile (· == '=') = Base64.digits bytes := by
    rw [List.rdropWhile_eq_self_iff]
    intro hne hlast
    rw [beq_iff_eq] at hlast
    exact Base64.eq_not_mem_digits (hlast ▸ List.getLast_mem hne)
  rw [List.rdropWhile, List.reverse_append, List.reverse_replicate,
    List.dropWhile_append_of_pos fun c hc => by rw [List.eq_of_mem_replicate hc]; rfl]
  exact hdigits

/-- **The padding does not matter**, nor do blanks around the text. -/
theorem decodeBase64_digits (hJ : Base64.Strict J.base64Decode) (bytes : List UInt8) (n : ℕ)
    (hbefore : before.all isWhitespace = true) (hafter : after.all isWhitespace = true) :
    decodeBase64 J (before ++ (Base64.digits bytes ++ List.replicate n '=') ++ after) =
      some bytes := by
  have hlength : ((Base64.digits bytes).flatMap String.utf8EncodeChar).length =
      (4 * bytes.length + 2) / 3 := KeyBytes.byteLength_digits bytes
  rw [decodeBase64, trim_between hbefore hafter (solid_padded bytes n), rdropWhile_padded]
  by_cases hn : n = Base64.padding bytes.length
  · have hdecode := hJ.decode_encode bytes
    rw [Base64.encode, ← hn] at hdecode
    rw [hdecode]
  · rw [hJ.decode_eq_none hn]
    dsimp only
    rw [hlength, ← Base64.padding_eq]
    exact hJ.decode_encode bytes

theorem map_hexValue_toHex (bytes : List UInt8) :
    (toHex bytes).map KeyBytes.hexValue = KeyBytes.hexValues bytes := by
  have hdigit : ∀ n < 16, KeyBytes.hexValue (Nat.digitChar n) = some n := by decide
  induction bytes with
  | nil => rfl
  | cons b bytes ih =>
    have hb := b.toNat_lt
    rw [toHex, KeyBytes.hexValues] at ih
    simp only [toHex, KeyBytes.hexValues, List.flatMap_cons, List.map_append, ih, List.map_cons,
      List.map_nil]
    rw [hdigit _ (by omega), hdigit _ (by omega)]

theorem base64ToHex_of_decode {s : List Char} (h : decodeBase64 J s = some bytes) :
    base64ToHex J s = toHex bytes := by
  rw [base64ToHex, h]

/-- **Keys survive** on their way to the data plane: it reads the key that the text is of, with any
padding and blanks around it. What is decoded can be encoded and decoded again. -/
theorem key_survives (P : Parsers) (hJ : J.Standard) :
    (∀ (key : Bytes 32) (before after : List Char) (n : ℕ),
      before.all isWhitespace = true → after.all isWhitespace = true →
      KeyBytes.fromStr P (base64ToHex J
        (before ++ (Base64.digits key.toList ++ List.replicate n '=') ++ after)) =
          some (some key)) ∧
    ∀ (s : List Char) (bytes : List UInt8), decodeBase64 J s = some bytes →
      decodeBase64 J (J.base64Encode bytes) = some bytes := by
  constructor
  · intro key before after n hbefore hafter
    rw [base64ToHex_of_decode (decodeBase64_digits hJ.strict key.toList n hbefore hafter)]
    exact KeyBytes.fromStr_of_hex (map_hexValue_toHex key.toList)
  · intro s bytes _
    have hdecode : decodeBase64 J ([] ++ (Base64.digits bytes ++
        List.replicate (Base64.padding bytes.length) '=') ++ []) = some bytes :=
      decodeBase64_digits hJ.strict bytes _ List.all_nil List.all_nil
    rw [List.nil_append, List.append_nil] at hdecode
    rw [hJ.encode]
    exact hdecode

end

/-- The engine, and nothing else. -/
def standardCodec : Codec where
  base64Decode := Base64.decode
  ipAddr _ := none
  socketAddr _ := none
  base64Encode := Base64.encode
  globalConfig _ := none
  nekoConfig _ := none

theorem key_survives_sample :
    KeyBytes.fromStr KeyBytes.sampleParsers (base64ToHex standardCodec
      ("  ".toList ++ (Base64.digits (fill 32 7).toList ++ List.replicate 2 '=') ++ ['\n'])) =
        some (some (fill 32 7)) :=
  (key_survives KeyBytes.sampleParsers ⟨rfl, Base64.strict_decode⟩).1 (fill 32 7)
    "  ".toList ['\n'] 2 (by decide) (by decide)

end NekoLink.Ctl
