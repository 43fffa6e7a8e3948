import Logalot.ApiKeys
import Logalot.Lib.Unicode
import Logalot.RefreshTokens

/-!
# The formats of tokens

API keys, refresh tokens and invites as the control plane reads and writes them
(`services/control-plane/src/domain`), over `splitN` of `split.ts`, and the slug
that the web server takes from an invite (`packages/contracts/src/invite.ts`).
-/

namespace Logalot.TokenFormats

open Go Js

/-! ## Splitting -/

/-- The loop of `splitN`; the first argument is how many more parts it may push. -/
def splitLoop (sep : JsString) : Nat → List JsString → JsString → List JsString
  | 0, out, rest => out ++ [rest]
  | k + 1, out, rest =>
    match Split.indexOf sep rest with
    | none => out ++ [rest]
    | some idx => splitLoop sep k (out ++ [rest.take idx]) (rest.drop (idx + sep.length))

def splitN (s sep : JsString) (n : Int) : List JsString := if n ≤ 0 then [] else splitLoop sep (n - 1).toNat [] s

def join (sep : JsString) (parts : List JsString) : JsString := sep.intercalate parts

/-! ## Parsing -/

structure ValidationError where
  message : JsString
  deriving Repr, DecidableEq

def separator : JsString := js "_"

/-- The fields after the prefix of a token with `n` parts: none of them is empty. -/
def parseFields (pre : JsString) (n : Int) (raw : JsString) : Option (List JsString) :=
  match splitN raw separator n with
  | [] => none
  | p :: fields => if (fields.length : Int) + 1 ≠ n ∨ p ≠ pre ∨ [] ∈ fields then none else some fields

/-- A parser, by its prefix, the number of its parts, what it makes of the fields and its message. -/
def parseToken {P : Type} (pre : JsString) (n : Int) (read : List JsString → Option P) (message raw : JsString) :
    Except ValidationError P :=
  match (parseFields pre n raw).bind read with
  | some p => .ok p
  | none => .error ⟨message⟩

/-! ### API keys -/

def KEY_PREFIX : JsString := js "lgk"

structure KeyMaterial where
  keyId : JsString
  secret : JsString
  deriving Repr, DecidableEq

@[ext]
structure ParsedApiKey where
  publicId : JsString
  keyId : JsString
  secret : JsString
  deriving Repr, DecidableEq

def assemblePlaintext (publicId : JsString) (material : KeyMaterial) : JsString :=
  join separator [KEY_PREFIX, publicId, material.keyId, material.secret]

def ParsedApiKey.ofFields : List JsString → Option ParsedApiKey
  | [publicId, keyId, secret] => some { publicId, keyId, secret }
  | _ => none

def parseApiKey (raw : JsString) : Except ValidationError ParsedApiKey :=
  parseToken KEY_PREFIX 4 ParsedApiKey.ofFields (js "malformed api key") raw

/-! ### Refresh tokens -/

def REFRESH_PREFIX : JsString := js "lgr"

@[ext]
structure ParsedRefreshToken where
  tenantId : JsString
  tokenId : JsString
  secret : JsString
  deriving Repr, DecidableEq

def assembleRefreshToken (tenantId tokenId secret : JsString) : JsString :=
  join separator [REFRESH_PREFIX, tenantId, tokenId, secret]

def ParsedRefreshToken.ofFields : List JsString → Option ParsedRefreshToken
  | [tenantId, tokenId, secret] => some { tenantId, tokenId, secret }
  | _ => none

def parseRefreshToken (raw : JsString) : Except ValidationError ParsedRefreshToken :=
  parseToken REFRESH_PREFIX 4 ParsedRefreshToken.ofFields (js "malformed refresh token") raw

/-! ### Invites -/

def INVITE_PREFIX : JsString := js "lginv"

@[ext]
structure ParsedInviteToken where
  publicId : JsString
  secret : JsString
  deriving Repr, DecidableEq

def assembleInviteToken (publicId secret : JsString) : JsString := join separator [INVITE_PREFIX, publicId, secret]

def ParsedInviteToken.ofFields : List JsString → Option ParsedInviteToken
  | [publicId, secret] => some { publicId, secret }
  | _ => none

def parseInviteToken (raw : JsString) : Except ValidationError ParsedInviteToken :=
  parseToken INVITE_PREFIX 3 ParsedInviteToken.ofFields (js "malformed invite token") raw

/-! ## The slug of an invite -/

def isSlugUnit (c : UInt16) : Bool := (97 ≤ c && c ≤ 122) || (48 ≤ c && c ≤ 57)

/-- `tenantPublicIdSchema`: `/^[a-z0-9][a-z0-9-]{1,38}[a-z0-9]$/`. -/
def tenantPublicId (s : JsString) : Bool :=
  3 ≤ s.length && s.length ≤ 40 && (s.head?.any isSlugUnit) && (s.getLast?.any isSlugUnit) &&
    s.all fun c => isSlugUnit c || c == 45

def INVITE_TOKEN_PREFIX : JsString := js "lginv_"

def parseInviteTenantSlug (token : JsString) : Option JsString :=
  if !INVITE_TOKEN_PREFIX.isPrefixOf token then none
  else
    let rest := token.drop INVITE_TOKEN_PREFIX.length
    match Split.indexOf (js "_") rest with
    | none => none
    | some sepIdx =>
      if sepIdx = 0 ∨ sepIdx = rest.length - 1 then none
      else if tenantPublicId (rest.take sepIdx) then some (rest.take sepIdx) else none

/-! ## What a format promises -/

def PlainField (f : JsString) : Prop := f ≠ [] ∧ 95 ∉ f

structure RoundTrips {P : Type} (parse : JsString → Except ValidationError P) (assemble : P → JsString)
    (Plain : P → Prop) : Prop where
  parse_assemble : ∀ p, Plain p → parse (assemble p) = .ok p
  assemble_parse : ∀ raw p, parse raw = .ok p → assemble p = raw

def ParsedApiKey.Plain (p : ParsedApiKey) : Prop := PlainField p.publicId ∧ PlainField p.keyId ∧ p.secret ≠ []

def ParsedApiKey.assemble (p : ParsedApiKey) : JsString := assemblePlaintext p.publicId ⟨p.keyId, p.secret⟩

def ParsedRefreshToken.Plain (p : ParsedRefreshToken) : Prop :=
  PlainField p.tenantId ∧ PlainField p.tokenId ∧ p.secret ≠ []

def ParsedRefreshToken.assemble (p : ParsedRefreshToken) : JsString :=
  assembleRefreshToken p.tenantId p.tokenId p.secret

def ParsedInviteToken.Plain (p : ParsedInviteToken) : Prop := PlainField p.publicId ∧ p.secret ≠ []

def ParsedInviteToken.assemble (p : ParsedInviteToken) : JsString := assembleInviteToken p.publicId p.secret

def ParsedApiKey.toGo (p : ParsedApiKey) : ParsedKey := ⟨utf8 p.publicId, utf8 p.keyId, utf8 p.secret⟩

def ParsedRefreshToken.toGo (p : ParsedRefreshToken) : Logalot.ParsedRefreshToken :=
  ⟨utf8 p.tenantId, utf8 p.tokenId, utf8 p.secret⟩

end Logalot.TokenFormats
