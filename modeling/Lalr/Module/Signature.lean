import Lalr.Digest.Sha256
import Lalr.Module.Section
import Lalr.Text.Digit
import Lalr.Text.Replace
import Lalr.Text.Utf8

/-!
# Lalr.Module.Signature

Signatures of generated modules.  A signature holds the version of the module's layout and a digest
of all generated lines, so edits outside manual sections can be told.  Line endings are no part of
the digest.
-/

namespace Lalr.Module

/-- The version of the layout of generated modules. -/
def formatVersion : Nat := 1

/-- What stands in the place of a signature before a module is signed. -/
def slug : List Char := "!*lalrgen-unsigned-5c0b0a1e9f3d4b27".toList

/-- What a signature follows. -/
def signingMark : List Char := "@generated by lalrgen".toList

/-- The line that a module has before it is signed. -/
def signatureLine : List Char := '#' :: ' ' :: signingMark ++ ' ' :: slug

/-- A signature: a layout version and a digest. -/
structure Signature where
  version : Nat
  digest : List Char
deriving DecidableEq, Repr

/-- A signature as it is written. -/
def Signature.token (s : Signature) : List Char :=
  "Signed<<v".toList ++ (toString s.version).toList ++ ':' :: s.digest ++ ">>".toList

/-- Why a text has no signature, or cannot be given one. -/
inductive SignatureError where
  | notOneSlug
  | multiple
  | unsigned
deriving DecidableEq, Repr

/-- The wording of a signature error. -/
def SignatureError.message : SignatureError → String
  | .notOneSlug => "Source must contain exactly one signature line to sign"
  | .multiple => "Multiple signatures found in source"
  | .unsigned => "Source does not appear to be signed"

/-! ## digests -/

/-- A line without its ending, and with a plain newline instead. -/
def normalLine (line : List Char) : List Char :=
  Text.dropEndWhile (fun c => c == '\r' || c == '\n') line ++ ['\n']

/-- What is digested: a heading with the layout version, and the generated lines. -/
def digestedText (source : List Char) (version : Nat) : List Char :=
  "lalrgen module v".toList ++ (toString version).toList ++ '\n' ::
    (generatedLines source).flatMap normalLine

/-- The digest of a text under a layout version. -/
def digest (source : List Char) (version : Nat) : List Char :=
  Sha256.hexDigest (Text.Utf8.encode (digestedText source version))

/-! ## signatures in a text -/

/-- A lower-case hexadecimal digit. -/
def isHexDigit (c : Char) : Bool := c.isDigit || ('a' ≤ c && c ≤ 'f')

/-- Read a signature with its mark at the start of a text; the rest of the text comes back too. -/
def readSignature (cs : List Char) : Option (Signature × List Char) := do
  let rest ← after? (signingMark ++ " Signed<<v".toList) cs
  let version := rest.takeWhile Text.isDigit
  let rest ← after? [':'] (rest.dropWhile Text.isDigit)
  let code := rest.take 64
  let rest ← after? ">>".toList (rest.drop 64)
  if version.isEmpty || code.length ≠ 64 || !code.all isHexDigit then none
  else some (⟨Text.numeral version, code⟩, rest)

/-- All signatures of a text that do not overlap, from the left; `skip` characters belong to a
signature that was found before. -/
def signaturesFrom (skip : Nat) : List Char → List Signature
  | [] => []
  | c :: cs =>
    match skip with
    | skip + 1 => signaturesFrom skip cs
    | 0 =>
      match readSignature (c :: cs) with
      | none => signaturesFrom 0 cs
      | some (s, rest) => s :: signaturesFrom (cs.length - rest.length) cs

/-- All signatures of a text. -/
def signatures (source : List Char) : List Signature := signaturesFrom 0 source

/-- Whether a text has a signature. -/
def isSigned (source : List Char) : Bool := !(signatures source).isEmpty

/-- The signature of a text, which must have exactly one. -/
def findSignature (source : List Char) : Except SignatureError Signature :=
  match signatures source with
  | [] => .error .unsigned
  | [s] => .ok s
  | _ => .error .multiple

/-- Sign a text, in the place of its slug. -/
def sign (source : List Char) : Except SignatureError (List Char) :=
  if Text.countChars slug source ≠ 1 then .error .notOneSlug
  else
    let s : Signature := ⟨formatVersion, digest source formatVersion⟩
    .ok (Text.replaceChars slug s.token source)

/-- Whether a text was signed with the current layout. -/
def isCurrent (source : List Char) : Except SignatureError Bool := do
  return (← findSignature source).version = formatVersion

/-- Whether nothing outside the manual sections changed since a text was signed.  A text of another
layout is checked against the digest of that layout. -/
def validate (source : List Char) : Except SignatureError Bool := do
  let s ← findSignature source
  return digest (Text.replaceChars s.token slug source) s.version = s.digest

end Lalr.Module
