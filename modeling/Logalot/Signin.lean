import Logalot.Callbacks
import Logalot.Web

/-!
# Signing in with Google

`apps/web/src/server/oidc.ts` between browsers and the control-plane: handshake
cookies, `beginAuthorize`, and `handleCallback` as the web server relays it. Whether
a session is minted for a state record is left to the run. Answers reach a browser
in any order or never, and records and cookies expire at any time. The state in the
redirect to Google is that of the record: it is base64url.
-/

namespace Logalot

open Go Pg

namespace Signin

inductive Cookie where
  | tenant
  | returnTo
  | state
  | inviteToken
  deriving DecidableEq

abbrev Jar := Cookie → Option Bytes

structure Deps where
  tenantOf : Bytes → Option Uuid
  sanitizeReturnTo : Option Bytes → Bytes
  parseInviteTenantSlug : Bytes → Option Bytes
  /-- The hash of the secret of an invite token, if it is one. -/
  inviteTokenHash : Bytes → Option Bytes

/-- What a server function has set cookies for. -/
inductive Grant where
  | signin (browser : Nat) (tenantSlug : Bytes) (returnTo : Option Bytes) (record : OAuthStateRecord)
  | invite (browser : Nat) (token : Bytes)

def Grant.browser : Grant → Nat
  | .signin b _ _ _ => b
  | .invite b _ => b

def Grant.cookies : Grant → List (Cookie × Bytes)
  | .signin _ tenantSlug returnTo r =>
    [(.state, r.state), (.tenant, tenantSlug)] ++ (Web.present returnTo).toList.map fun v => (.returnTo, v)
  | .invite _ token => [(.inviteToken, token)]

/-- `cleared` is what every way out of `completeGoogleSignin` sends. -/
inductive Reply where
  | grant (g : Grant)
  | cleared (browser : Nat)

def Reply.browser : Reply → Nat
  | .grant g => g.browser
  | .cleared b => b

def Reply.apply (jar : Jar) : Reply → Jar
  | .grant g => fun c => (g.cookies.lookup c).or (jar c)
  | .cleared _ => fun _ => none

def beginAuthorize (deps : Deps) (tenantSlug : Bytes) (returnTo : Option Bytes) (state codeVerifier nonce : Bytes) :
    Option OAuthStateRecord :=
  (deps.tenantOf tenantSlug).map fun tenantId =>
    ⟨state, tenantId, some codeVerifier, some nonce, some (deps.sanitizeReturnTo returnTo)⟩

/-- What `completeGoogleSignin` relays, if the state is that of the cookie. -/
def completeGoogleSignin (deps : Deps) (jar : Jar) (code state : Bytes) : Option OidcCallbackCommand :=
  if Web.present (jar .state) = some state then
    some ⟨code, state, (Web.present (jar .inviteToken)).bind deps.inviteTokenHash⟩
  else none

/-- A call of `completeGoogleSignin` with the callback it has relayed. -/
structure Call where
  browser : Nat
  returnTo : Option Bytes
  cmd : OidcCallbackCommand
  phase : CallbackPhase

/-- What `mintSession` needs beside the flow. -/
structure Minting where
  record : AuthRecord
  role : Role
  tokenId : Uuid
  secret : Bytes

/-- The end of a callback that has its flow; without a session the web server has none to set either. -/
def settled (f : OAuthFlow) : Option Minting → CallbackPhase
  | some m => .minted f m.record m.role m.tokenId m.secret
  | none => .done .failed

inductive Event where
  | startGoogleSignin (browser : Nat) (tenantSlug : Bytes) (returnTo : Option Bytes) (state codeVerifier nonce : Bytes)
  | stashInviteToken (browser : Nat) (token : Bytes)
  | receive (reply : Nat)
  | completeGoogleSignin (browser : Nat) (code state : Bytes)
  | advance (call : Nat) (minting : Option Minting)
  | expireState (state : Bytes)
  | expireCookie (browser : Nat) (cookie : Cookie)
  | forge (browser : Nat) (jar : Jar)

end Signin

structure Signin where
  states : List OAuthStateRecord
  jars : Nat → Signin.Jar
  replies : List Signin.Reply
  calls : List Signin.Call
  grants : List Signin.Grant

namespace Signin

def give (s : Signin) (g : Grant) : Signin := { s with replies := .grant g :: s.replies, grants := g :: s.grants }

def setJar (s : Signin) (b : Nat) (jar : Jar) : Signin := { s with jars := Function.update s.jars b jar }

/-- A random state is not one that was issued before. -/
def Fresh (s : Signin) (state : Bytes) : Prop := ∀ g ∈ s.grants, (Cookie.state, state) ∉ g.cookies

instance (s : Signin) (state : Bytes) : Decidable (s.Fresh state) := inferInstanceAs (Decidable (∀ g ∈ s.grants, _))

def dropState (s : Signin) (state : Bytes) : Signin := { s with states := s.states.filter fun r => r.state ≠ state }

/-- The callback moves on; at its end the handshake cookies go. -/
def move (s : Signin) (k : Nat) (x : Call) (ph : CallbackPhase) : Signin :=
  { s with
    calls := s.calls.set k { x with phase := ph }
    replies := if ph.isDone then .cleared x.browser :: s.replies else s.replies }

def start (s : Signin) (b : Nat) (tenantSlug : Bytes) (returnTo : Option Bytes) (r : OAuthStateRecord) : Signin :=
  if s.Fresh r.state then { s with states := r :: s.states }.give (.signin b tenantSlug returnTo r) else s

def complete (s : Signin) (b : Nat) : Option OidcCallbackCommand → Signin
  | none => { s with replies := .cleared b :: s.replies }
  | some cmd => { s with calls := s.calls ++ [⟨b, s.jars b .returnTo, cmd, .consumeState⟩] }

def advance (s : Signin) (k : Nat) (x : Call) (minting : Option Minting) : Signin :=
  match x.phase with
  | .consumeState =>
    (s.dropState x.cmd.state).move k x (.afterConsumeState (s.states.find? fun r => r.state = x.cmd.state))
  | .exchange f => s.move k x (settled f minting)
  | _ => s

/-- Cookies change by answers alone, unless the browser is not honest. -/
def step (deps : Deps) (honest : Nat → Bool) (s : Signin) : Event → Signin
  | .startGoogleSignin b tenantSlug returnTo state codeVerifier nonce =>
    ((beginAuthorize deps tenantSlug returnTo state codeVerifier nonce).map (s.start b tenantSlug returnTo)).getD s
  | .stashInviteToken b token => if (deps.parseInviteTenantSlug token).isSome then s.give (.invite b token) else s
  | .receive k =>
    (s.replies[k]?.map fun r =>
      { s.setJar r.browser (r.apply (s.jars r.browser)) with replies := s.replies.eraseIdx k }).getD s
  | .completeGoogleSignin b code state => s.complete b (Signin.completeGoogleSignin deps (s.jars b) code state)
  | .advance k minting => (s.calls[k]?.map fun x => s.advance k x minting).getD s
  | .expireState state => s.dropState state
  | .expireCookie b c => s.setJar b (Function.update (s.jars b) c none)
  | .forge b jar => if honest b then s else s.setJar b jar

def run (deps : Deps) (honest : Nat → Bool) (es : List Event) : Signin :=
  es.foldl (step deps honest) ⟨[], fun _ _ => none, [], [], []⟩

end Signin

end Logalot
