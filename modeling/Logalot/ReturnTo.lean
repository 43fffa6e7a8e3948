import Logalot.AlertConfig
import Logalot.Lib.Url

/-!
# The path a login returns to

`returnToSchema` of `packages/contracts/src/oauth.ts` and `sanitizeReturnTo` of
`services/control-plane/src/app/oidc-authenticator.ts` are written apart from
each other. They accept the same texts, and a browser that follows an accepted
one stays on its origin.
-/

namespace Logalot

open Js Url

/-! ## The schema of the contract -/

/-- The expression `^\/(?![/\\])`. -/
def singleSlash : JsString → Bool
  | [] => false
  | [c] => c == slash
  | c :: d :: _ => c == slash && !(d == slash || d == backslash)

def containsControlChar (v : JsString) : Bool := v.any fun code => code ≤ 0x1f || code == 0x7f

def returnToMessage : JsString :=
  js "returnTo must be a relative path starting with a single \"/\" and must not contain control characters"

/-- All checks run on the trimmed text, and every one that fails adds its issue. -/
def returnToIssues (v : JsString) : List AlertConfig.Issue :=
  AlertConfig.lengthIssues [] 1 2000 v ++
    AlertConfig.issueIf (!(singleSlash v && !containsControlChar v)) [] (.custom returnToMessage)

def returnToSchema (v : JsString) : Except (List AlertConfig.Issue) JsString :=
  match returnToIssues (trim v) with
  | [] => .ok (trim v)
  | issues => .error issues

/-! ## The check of the login service -/

def defaultReturnTo : JsString := js "/"

def isValidReturnTo (v : JsString) : Bool :=
  if v.length == 0 || 2000 < v.length then false
  else if !singleSlash v then false
  else v.all fun c => !(c ≤ 0x1f || c == 0x7f)

/-- `accepted` tells the value itself from the default. -/
structure Sanitized where
  returnTo : JsString
  accepted : Bool
  deriving DecidableEq

def sanitizeReturnTo : Option JsString → Sanitized
  | none => ⟨defaultReturnTo, false⟩
  | some [] => ⟨defaultReturnTo, false⟩
  | some value => if !isValidReturnTo (trim value) then ⟨defaultReturnTo, false⟩ else ⟨trim value, true⟩

/-! ## What is accepted -/

structure Accepted (w : JsString) : Prop where
  nonempty : 1 ≤ w.length
  short : w.length ≤ 2000
  single : singleSlash w = true
  printable : ∀ c ∈ w, ¬ (c ≤ 0x1f ∨ c = 0x7f)

variable {v w : JsString}

theorem containsControlChar_eq_false :
    containsControlChar v = false ↔ ∀ c ∈ v, ¬ (c ≤ 0x1f ∨ c = 0x7f) := by
  simp [containsControlChar]

theorem issueIf_eq_nil {c : Bool} {path : List String} {problem : AlertConfig.Problem} :
    AlertConfig.issueIf c path problem = [] ↔ c = false := by
  cases c <;> simp [AlertConfig.issueIf]

theorem returnToIssues_eq_nil : returnToIssues v = [] ↔ Accepted v := by
  simp only [returnToIssues, AlertConfig.lengthIssues, List.append_eq_nil_iff, issueIf_eq_nil, decide_eq_false_iff_not,
    not_lt, Bool.not_eq_false', Bool.and_eq_true, Bool.not_eq_true', containsControlChar_eq_false]
  constructor
  · rintro ⟨⟨hmin, hmax⟩, hslash, hctl⟩
    exact ⟨hmin, hmax, hslash, hctl⟩
  · rintro ⟨hmin, hmax, hslash, hctl⟩
    exact ⟨⟨hmin, hmax⟩, hslash, hctl⟩

theorem isValidReturnTo_iff : isValidReturnTo v = true ↔ Accepted v := by
  have hlen : (v.length == 0 || decide (2000 < v.length)) = true ↔ ¬ (1 ≤ v.length ∧ v.length ≤ 2000) := by
    simp only [Bool.or_eq_true, beq_iff_eq, decide_eq_true_eq]
    omega
  have hctl : (v.all fun c => !(c ≤ 0x1f || c == 0x7f)) = true ↔ ∀ c ∈ v, ¬ (c ≤ 0x1f ∨ c = 0x7f) := by simp
  unfold isValidReturnTo
  constructor
  · intro h
    split at h
    · cases h
    · rename_i hl
      split at h
      · cases h
      · rename_i hs
        obtain ⟨hmin, hmax⟩ := not_not.mp (hl ∘ hlen.mpr)
        exact ⟨hmin, hmax, by simpa using hs, hctl.mp h⟩
  · rintro ⟨hmin, hmax, hs, hc⟩
    rw [if_neg fun hl => hlen.mp hl ⟨hmin, hmax⟩, if_neg (by simp [hs])]
    exact hctl.mpr hc

theorem returnToSchema_eq_ok : returnToSchema v = .ok w ↔ Accepted (trim v) ∧ w = trim v := by
  unfold returnToSchema
  cases hi : returnToIssues (trim v) with
  | nil => simp [returnToIssues_eq_nil.mp hi, eq_comm]
  | cons issue issues =>
    have hn : ¬ Accepted (trim v) := by
      intro ha
      rw [returnToIssues_eq_nil.mpr ha] at hi
      cases hi
    simp [hn]

theorem sanitizeReturnTo_eq :
    v ≠ [] ∧ sanitizeReturnTo (some v) = ⟨w, true⟩ ↔ Accepted (trim v) ∧ w = trim v := by
  cases v with
  | nil =>
    have hn : ¬ Accepted (trim []) := fun ha => absurd ha.nonempty (by decide)
    simp [hn]
  | cons c v =>
    by_cases ha : Accepted (trim (c :: v))
    · simp [sanitizeReturnTo, isValidReturnTo_iff.mpr ha, ha, eq_comm]
    · have hf : isValidReturnTo (trim (c :: v)) = false := by
        rw [← Bool.not_eq_true, isValidReturnTo_iff]
        exact ha
      simp [sanitizeReturnTo, hf, ha]

/-! ## What a browser makes of it -/

theorem singleSlash_eq_true :
    singleSlash w = true ↔ ∃ rest, w = slash :: rest ∧ ∀ c, rest.head? = some c → isSlash c = false := by
  match w with
  | [] => simp [singleSlash]
  | [c] => simp [singleSlash]
  | c :: d :: rest => simp [singleSlash, isSlash]

theorem isControlOrSpace_eq_false {c : UInt16} (hc : ¬ c ≤ 0x1f) (hs : isSpace c = false) :
    isControlOrSpace c = false := by
  have hne : c ≠ 0x20 := by
    rintro rfl
    cases hs
  rw [isControlOrSpace, decide_eq_false_iff_not, UInt16.le_iff_toNat_le]
  rw [UInt16.le_iff_toNat_le] at hc
  have h31 : (0x1f : UInt16).toNat = 31 := rfl
  have h32 : (0x20 : UInt16).toNat = 32 := rfl
  have hn : c.toNat ≠ (0x20 : UInt16).toNat := fun h => hne (UInt16.toNat_inj.mp h)
  omega

theorem isTabOrNewline_eq_false {c : UInt16} (hc : ¬ c ≤ 0x1f) : isTabOrNewline c = false := by
  have hne : ∀ d : UInt16, d ≤ 0x1f → c ≠ d := fun d hd he => hc (he ▸ hd)
  simp [isTabOrNewline, hne 9 (by decide), hne 10 (by decide), hne 13 (by decide)]

theorem last_of_accepted (h : Accepted (trim v)) (hne : trim v ≠ []) :
    isControlOrSpace ((trim v).getLast hne) = false := by
  have hp := h.printable _ (List.getLast_mem hne)
  have hs : isSpace ((trim v).getLast hne) = false := by
    rw [← Bool.not_eq_true]
    exact List.rdropWhile_last_not isSpace (v.dropWhile isSpace) hne
  exact isControlOrSpace_eq_false (not_or.mp hp).1 hs

theorem strip_of_accepted (h : Accepted (trim v)) : strip (trim v) = trim v := by
  have hl := last_of_accepted h
  obtain ⟨rest, hw, -⟩ := singleSlash_eq_true.mp h.single
  rw [hw] at hl ⊢
  exact strip_eq_self (by decide) (hl (List.cons_ne_nil _ _))

theorem removeTabs_of_accepted (h : Accepted w) : removeTabs w = w := by
  apply removeTabs_eq_self
  intro c hc
  exact isTabOrNewline_eq_false (not_or.mp (h.printable c hc)).1

/-- **Return paths.** The two checks accept the same texts, with the same result. What the browser reads of an
accepted one begins with exactly one slash. -/
theorem returnTo_stays_on_origin (v : JsString) :
    (∀ w, returnToSchema v = .ok w ↔ v ≠ [] ∧ sanitizeReturnTo (some v) = ⟨w, true⟩) ∧
    ∀ w, returnToSchema v = .ok w →
      (∃ rest, readBackslashes (strip (removeTabs w)) = slash :: rest ∧ rest.head? ≠ some slash) ∧
      ∀ readAuthority page, resolve readAuthority page w = some page.toOrigin := by
  refine ⟨fun w => returnToSchema_eq_ok.trans sanitizeReturnTo_eq.symm, ?_⟩
  intro w hw
  obtain ⟨ha, rfl⟩ := returnToSchema_eq_ok.mp hw
  obtain ⟨rest, he, hr⟩ := singleSlash_eq_true.mp ha.single
  have hstrip := strip_of_accepted ha
  have htabs := removeTabs_of_accepted ha
  constructor
  · rw [htabs, hstrip, he]
    exact ⟨readBackslashes rest, rfl, head_readBackslashes hr⟩
  · intro readAuthority page
    apply resolve_of_single_slash _ hr
    rw [hstrip, htabs, he]

example : returnToSchema (js " /logs?page=2 ") = .ok (js "/logs?page=2") := by decide

end Logalot
