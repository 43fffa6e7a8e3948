import Logalot.Lib.Scan

/-!
# Scanning a text with holes

Generated text is fixed text with values spelled into holes. A `Spelling`
says how a value is spelled, which token it reads back as, and which bytes may
follow it. Fixed text that settles every step of its own scan is read apart
from what follows, so a whole template reads as its parts.
-/

namespace Go

def StartsIn (stops : UInt8 → Bool) (s : Bytes) : Prop := ∀ c, s.head? = some c → stops c = true

structure Spelling (τ η : Type) where
  next : UInt8 → Bytes → Option τ × Bytes
  shrinks : ∀ c s, (next c s).2.length ≤ s.length
  hole : η → Bytes
  token : η → τ
  /-- Bytes that end every value before them. -/
  stops : UInt8 → Bool
  scan_hole : ∀ (v : η) (s : Bytes), StartsIn stops s → scan next (hole v ++ s) = token v :: scan next s
  /-- A step that does not depend on what follows, before a hole and elsewhere. -/
  settled : Bool → UInt8 → Bytes → Bool
  settled_hole : ∀ c s, settled true c s = true → Settled next (fun _ => True) c s
  settled_stop : ∀ c s, settled false c s = true → Settled next (StartsIn stops) c s

namespace Spelling

section
variable {τ η : Type} (S : Spelling τ η)

def read (s : Bytes) : List τ := scan S.next s

/-- Fixed text that settles its own scan and does not continue a value before it. -/
structure Fixed (beforeHole : Bool) where
  text : Bytes
  closed : closedFrom S.next (S.settled beforeHole) text.length text = true
  head : text.head?.any S.stops = true

inductive Part where
  | plain (f : S.Fixed false)
  | hole (f : S.Fixed true) (v : η)

variable {S}

def Part.text : S.Part → Bytes
  | .plain f => f.text
  | .hole f v => f.text ++ S.hole v

def Part.tokens : S.Part → List τ
  | .plain f => S.read f.text
  | .hole f v => S.read f.text ++ [S.token v]

def Part.fixed : S.Part → Bytes
  | .plain f => f.text
  | .hole f _ => f.text

def Part.value : S.Part → Option η
  | .plain _ => none
  | .hole _ v => some v

theorem startsIn_fixed {b : Bool} (f : S.Fixed b) (s : Bytes) : StartsIn S.stops (f.text ++ s) := by
  intro c hc
  have h := f.head
  cases hf : f.text with
  | nil =>
    rw [hf] at h
    cases h
  | cons d t =>
    rw [hf] at h hc
    simp only [List.cons_append, List.head?_cons, Option.some.injEq] at hc
    simpa [hc] using h

theorem startsIn_parts {rest : Bytes} (hr : StartsIn S.stops rest) (ps : List S.Part) :
    StartsIn S.stops (ps.flatMap Part.text ++ rest) := by
  cases ps with
  | nil => exact hr
  | cons p ps =>
    rw [List.flatMap_cons, List.append_assoc]
    cases p with
    | plain f => exact startsIn_fixed f _
    | hole f v =>
      rw [Part.text, List.append_assoc]
      exact startsIn_fixed f _

theorem read_parts {rest : Bytes} (hr : StartsIn S.stops rest) : ∀ ps : List S.Part,
    S.read (ps.flatMap Part.text ++ rest) = ps.flatMap Part.tokens ++ S.read rest
  | [] => rfl
  | p :: ps => by
    have ih := read_parts hr ps
    have hs := startsIn_parts hr ps
    rw [List.flatMap_cons, List.flatMap_cons, List.append_assoc, List.append_assoc, ← ih]
    cases p with
    | plain f => exact scan_append S.next S.shrinks S.settled_stop hs _ f.text f.closed
    | hole f v =>
      rw [Part.text, Part.tokens, List.append_assoc, List.append_assoc]
      refine (scan_append S.next S.shrinks S.settled_hole trivial _ f.text f.closed).trans ?_
      rw [S.scan_hole v _ hs]
      rfl

theorem read_lead {lead s : Bytes} (h : closedFrom S.next (S.settled false) lead.length lead = true)
    (hs : StartsIn S.stops s) : S.read (lead ++ s) = S.read lead ++ S.read s :=
  scan_append S.next S.shrinks S.settled_stop hs _ lead h

/-- The part with another value in its hole. -/
def Part.shape (v : η) : S.Part → S.Part
  | .plain f => .plain f
  | .hole f _ => .hole f v

theorem map_tokens_shape {κ : Type} (f : τ → κ) (v : η) (hf : ∀ w, f (S.token w) = f (S.token v)) :
    ∀ ps : List S.Part, (ps.flatMap Part.tokens).map f = ((ps.map (Part.shape v)).flatMap Part.tokens).map f
  | [] => rfl
  | p :: ps => by
    have ih := map_tokens_shape f v hf ps
    have hp : p.tokens.map f = (p.shape v).tokens.map f := by
      cases p <;> simp [Part.tokens, Part.shape, hf]
    rw [List.map_cons, List.flatMap_cons, List.flatMap_cons, List.map_append, List.map_append, ih, hp]

theorem filterMap_tokens {κ : Type} {f : τ → Option κ} {g : η → κ} (hf : ∀ v, f (S.token v) = some (g v)) :
    ∀ {ps : List S.Part}, (∀ p ∈ ps, (S.read p.fixed).filterMap f = []) →
      (ps.flatMap Part.tokens).filterMap f = (ps.filterMap Part.value).map g
  | [], _ => rfl
  | p :: ps, h => by
    have ih := filterMap_tokens hf fun q hq => h q (List.mem_cons_of_mem _ hq)
    have hp := h p List.mem_cons_self
    rw [List.flatMap_cons, List.filterMap_append, ih]
    cases p with
    | plain f => exact congrArg (· ++ _) hp
    | hole g v =>
      have hp' : (S.read g.text).filterMap f = [] := hp
      simp [Part.tokens, Part.value, hp', hf]

end

end Spelling

end Go
