import Logalot.Sessions

/-!
# Sessions of the web server

`apps/web/src/server/{session,auth,tail-proxy}.ts`: the session cookies of a
browser, `getSession`, which renews an expired session, and `tailProxy`, which
connects the browser to the live tail. A request makes at most one refresh call
to the control-plane, and other requests and other clients run between its
parts. Cookie values are opaque texts: how a header spells them is left out.
-/

namespace Logalot

open Go Pg

namespace Web

/-! ## Access tokens -/

structure AccessClaims where
  sub : Bytes
  tenantId : Bytes
  role : Role
  exp : Int
  deriving DecidableEq

structure ClientSession where
  userId : Bytes
  tenantId : Bytes
  role : Role
  expiresAt : Int
  deriving DecidableEq

def sessionFromClaims (claims : AccessClaims) : ClientSession :=
  { userId := claims.sub, tenantId := claims.tenantId, role := claims.role, expiresAt := claims.exp }

/-- An empty text counts as none. -/
def present : Option Bytes → Option Bytes
  | some (c :: s) => some (c :: s)
  | _ => none

section Handlers

-- how the middle part of a token is decoded and checked against the schema of claims
variable (readClaims : Bytes → Option AccessClaims)

def decodeAccessClaims (token : Option Bytes) : Option AccessClaims :=
  match present token with
  | none => none
  | some token =>
    match splitN (bs ".") 4 token with
    | [_, payload, _] => readClaims payload
    | _ => none

def skewSeconds : Int := 30

def isExpired (claims : AccessClaims) (nowMs : Int) : Bool := claims.exp ≤ nowMs / 1000 + skewSeconds

/-- The claims of a token that is still good. -/
def current (nowMs : Int) (token : Option Bytes) : Option AccessClaims :=
  (decodeAccessClaims readClaims token).filter fun claims => !isExpired claims nowMs

/-! ## Cookies -/

structure TokenPair where
  accessToken : Bytes
  refreshToken : Bytes
  deriving DecidableEq

structure Cookies where
  access : Option Bytes
  refresh : Option Bytes
  deriving DecidableEq

def Cookies.none : Cookies := ⟨.none, .none⟩

inductive CookieChange where
  | keep
  | write (pair : TokenPair)
  | clear
  deriving DecidableEq

def CookieChange.apply (cookies : Cookies) : CookieChange → Cookies
  | .keep => cookies
  | .write pair => ⟨some pair.accessToken, some pair.refreshToken⟩
  | .clear => .none

inductive Response where
  | session (s : Option ClientSession) (cookies : CookieChange)
  | jsonError (status : Nat) (error : Bytes)
  | stream (cookies : CookieChange)

def Response.cookies : Response → CookieChange
  | .session _ cookies => cookies
  | .jsonError _ _ => .keep
  | .stream cookies => cookies

/-! ## Handlers

A handler either has its result at once or asks the control-plane to refresh;
the call gives a pair of tokens or throws (`none`).
-/

inductive Ask (α : Type) where
  | done (a : α)
  | refresh (refreshToken : Bytes)

def Ask.map {α β : Type} (f : α → β) : Ask α → Ask β
  | .done a => .done (f a)
  | .refresh refreshToken => .refresh refreshToken

def getSession (nowMs : Int) (cookies : Cookies) : Ask Response :=
  match current readClaims nowMs cookies.access with
  | some claims => .done (.session (some (sessionFromClaims claims)) .keep)
  | none =>
    match present cookies.refresh with
    | none => .done (.session none .clear)
    | some refreshToken => .refresh refreshToken

def getSessionRefreshed : Option TokenPair → Response
  | none => .session none .clear
  | some pair =>
    match decodeAccessClaims readClaims (some pair.accessToken) with
    | none => .session none .clear
    | some fresh => .session (some (sessionFromClaims fresh)) (.write pair)

structure TailAuth where
  ok : Bool
  token : Option Bytes
  setCookies : CookieChange

def resolveTailAuth (nowMs : Int) (cookies : Cookies) : Ask TailAuth :=
  match current readClaims nowMs cookies.access with
  | some _ => .done ⟨true, cookies.access, .keep⟩
  | none =>
    match present cookies.refresh with
    | none => .done ⟨false, none, .keep⟩
    | some refreshToken => .refresh refreshToken

def resolveTailAuthRefreshed : Option TokenPair → TailAuth
  | none => ⟨false, none, .keep⟩
  | some pair => ⟨true, some pair.accessToken, .write pair⟩

/-! ## Requests -/

inductive Handler where
  | getSession
  | tailProxy
  deriving DecidableEq

/-- `connecting` is a request to the query-service; `received` is an answer that the browser has applied. -/
inductive RequestPhase where
  | arrived
  | refreshing
  | connecting (token : Bytes) (setCookies : CookieChange)
  | answered (r : Response)
  | received (r : Response)

def tailProxy (auth : TailAuth) : RequestPhase :=
  match auth.ok, present auth.token with
  | true, some token => .connecting token auth.setCookies
  | _, _ => .answered (.jsonError 401 (bs "unauthorized"))

/-- What the query-service gives: nothing, or a status and perhaps a body. -/
inductive Upstream where
  | unreachable
  | response (status : Nat) (body : Bool)

def Upstream.streams : Upstream → Prop
  | .unreachable => False
  | .response status body => 200 ≤ status ∧ status ≤ 299 ∧ body = true

instance : DecidablePred Upstream.streams
  | .unreachable => inferInstanceAs (Decidable False)
  | .response _ _ => inferInstanceAs (Decidable (_ ∧ _))

def tailProxyConnected (setCookies : CookieChange) (u : Upstream) : Response :=
  if u.streams then .stream setCookies
  else
    match u with
    | .response 401 _ => .jsonError 401 (bs "tail_unavailable")
    | _ => .jsonError 502 (bs "tail_unavailable")

def Handler.start (nowMs : Int) (cookies : Cookies) : Handler → Ask RequestPhase
  | .getSession => (Web.getSession readClaims nowMs cookies).map .answered
  | .tailProxy => (resolveTailAuth readClaims nowMs cookies).map Web.tailProxy

def Handler.refreshed (pair : Option TokenPair) : Handler → RequestPhase
  | .getSession => .answered (getSessionRefreshed readClaims pair)
  | .tailProxy => Web.tailProxy (resolveTailAuthRefreshed pair)

end Handlers

structure Request where
  handler : Handler
  cookies : Cookies
  phase : RequestPhase

def pairOf (accessToken : Bytes) : Outcome → Option TokenPair
  | .session t => some ⟨accessToken, t.refreshToken⟩
  | _ => none

end Web

/-! ## States -/

/-- The control-plane, the requests of one browser and its cookies. A request and its refresh call have
the same number. -/
structure Web where
  sessions : Sessions
  requests : Nat → Option Web.Request
  jar : Web.Cookies
  nowMs : Int

namespace Web

def setRequest (w : Web) (i : Nat) (r : Request) : Web :=
  { w with requests := Function.update w.requests i (some r) }

def calls (w : Web) (i : Nat) : Option RefreshCall := w.sessions.refreshes i

/-! ## Steps -/

inductive Action where
  | wait
  | control
  | send (i : Nat)
  | start (i : Nat)
  | unreached (i : Nat)
  | reply (i : Nat) (accessToken : Bytes)
  | lost (i : Nat)
  | connected (i : Nat) (u : Upstream)
  | receive (i : Nat)

inductive Step (deps : AuthDeps) (readClaims : Bytes → Option AccessClaims) : Web → Action → Web → Prop where
  | wait {w : Web} {nowMs : Int} : w.nowMs ≤ nowMs → Step deps readClaims w .wait { w with nowMs }
  /-- A step of the control-plane, for the browser or for any other client. -/
  | control {w : Web} {sessions : Sessions} :
    Sessions.Step deps w.sessions sessions →
    (∀ i, w.requests i ≠ none → w.calls i = none → sessions.refreshes i = none) →
    Step deps readClaims w .control { w with sessions }
  | send {w : Web} {i : Nat} (handler : Handler) :
    w.requests i = none → w.calls i = none →
    Step deps readClaims w (.send i) (w.setRequest i ⟨handler, w.jar, .arrived⟩)
  | start {w : Web} {i : Nat} {r : Request} {phase : RequestPhase} :
    w.requests i = some r → r.phase = .arrived →
    r.handler.start readClaims w.nowMs r.cookies = .done phase →
    Step deps readClaims w (.start i) (w.setRequest i { r with phase })
  | startRefresh {w : Web} {i : Nat} {r : Request} {refreshToken : Bytes} :
    w.requests i = some r → r.phase = .arrived →
    r.handler.start readClaims w.nowMs r.cookies = .refresh refreshToken → w.calls i = none →
    Step deps readClaims w (.start i) ({ w with
      sessions := w.sessions.setRefresh i (Sessions.refreshCall deps w.sessions.tokens refreshToken) }.setRequest i
        { r with phase := .refreshing })
  /-- The refresh call never reaches the control-plane. -/
  | unreached {w : Web} {i : Nat} {r : Request} {refreshToken : Bytes} :
    w.requests i = some r → r.phase = .arrived →
    r.handler.start readClaims w.nowMs r.cookies = .refresh refreshToken →
    Step deps readClaims w (.unreached i) (w.setRequest i { r with phase := r.handler.refreshed readClaims none })
  | reply {w : Web} {i : Nat} {r : Request} {c : RefreshCall} {o : Outcome} (accessToken : Bytes) :
    w.requests i = some r → r.phase = .refreshing → w.calls i = some c → c.phase = .done o →
    Step deps readClaims w (.reply i accessToken)
      (w.setRequest i { r with phase := r.handler.refreshed readClaims (pairOf accessToken o) })
  /-- The answer of the control-plane does not arrive, or is no pair of tokens. -/
  | lost {w : Web} {i : Nat} {r : Request} :
    w.requests i = some r → r.phase = .refreshing →
    Step deps readClaims w (.lost i) (w.setRequest i { r with phase := r.handler.refreshed readClaims none })
  | connected {w : Web} {i : Nat} {r : Request} {token : Bytes} {setCookies : CookieChange} (u : Upstream) :
    w.requests i = some r → r.phase = .connecting token setCookies →
    Step deps readClaims w (.connected i u)
      (w.setRequest i { r with phase := .answered (tailProxyConnected setCookies u) })
  | receive {w : Web} {i : Nat} {r : Request} {response : Response} :
    w.requests i = some r → r.phase = .answered response →
    Step deps readClaims w (.receive i)
      ({ w with jar := response.cookies.apply w.jar }.setRequest i { r with phase := .received response })

def system (deps : AuthDeps) (readClaims : Bytes → Option AccessClaims) (start : Web)
    (ok : Web → Action → Web → Prop) : Runs.System Web :=
  { init := fun w => w = start
    step := fun w w' => ∃ a, Step deps readClaims w a w' ∧ ok w a w' }

end Web

end Logalot
