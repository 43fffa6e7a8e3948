import Logalot.Ingest
import Logalot.Lib.Assoc

/-!
# Validated payloads

A struct takes the last member that names a field up to case, a map is asked for
the exact keys and their aliases. `Agree` says on the members of the payload when
both come to the same.
-/

namespace Logalot

open Go Assoc

/-! ## Maps -/

theorem lookup_putLabel (out : Labels) (k k' v : Bytes) :
    (putLabel out k' v).lookup k = if k = k' then some v else out.lookup k := by
  unfold putLabel
  by_cases h : (out.lookup k').isSome = true
  · rw [if_pos h, lookup_map_put]
    by_cases hk : k = k'
    · obtain ⟨w, hw⟩ := Option.isSome_iff_exists.mp h
      subst hk
      simp [hw]
    · simp [hk]
  · rw [if_neg h]
    exact lookup_append_single (Option.not_isSome_iff_eq_none.mp h)

theorem kept_append (name : Bytes) (members : List (Bytes × Bytes)) (m : Bytes × Bytes) :
    kept name (members ++ [m]) = if m.1 = name then some m else kept name members := by
  unfold kept
  by_cases h : m.1 = name <;> simp [h]

theorem lookup_decodeMap (name : Bytes) (members : List (Bytes × Bytes)) :
    (decodeMap members).lookup name = (kept name members).map Prod.snd := by
  induction members using List.reverseRecOn with
  | nil => rfl
  | append_singleton members m ih =>
    unfold decodeMap at ih ⊢
    rw [List.foldl_append, List.foldl_cons, List.foldl_nil, lookup_putLabel, kept_append, ih]
    by_cases h : m.1 = name
    · simp [h]
    · simp [h, Ne.symm h]

/-! ## Structs -/

section
variable {β : Type} {read : Bytes → Option β} {name : Bytes}

theorem seen_append (members : List (Bytes × Bytes)) (m : Bytes × Bytes) :
    seen read name (members ++ [m]) =
      if Json.foldName m.1 = Json.foldName name then (read m.2).or (seen read name members)
      else seen read name members := by
  unfold seen namedMembers
  by_cases h : Json.foldName m.1 = Json.foldName name
  · cases hr : read m.2 <;> simp [h, hr]
  · simp [h]

/-- A part of the struct that the members of one name write. -/
def Sets (g : IngestEvent → β) (read : Bytes → Option β) (name : Bytes) : Prop :=
  ∀ ev m ev', IngestEvent.store ev m = some ev' →
    g ev' = if Json.foldName m.1 = Json.foldName name then (read m.2).getD (g ev) else g ev

theorem Sets.run {g : IngestEvent → β} (hs : Sets g read name) {members : List (Bytes × Bytes)} :
    ∀ {ev : IngestEvent}, storeAll members = some ev → g ev = (seen read name members).getD (g {}) := by
  unfold storeAll
  induction members using List.reverseRecOn with
  | nil =>
    intro ev h
    cases h
    rfl
  | append_singleton members m ih =>
    intro ev h
    rw [List.foldlM_append, Option.bind_eq_bind, Option.bind_eq_some_iff] at h
    obtain ⟨ev', h', h⟩ := h
    rw [List.foldlM_cons, Option.bind_eq_bind, Option.bind_eq_some_iff] at h
    obtain ⟨ev'', h, e⟩ := h
    cases e
    rw [hs ev' m ev h, ih h', seen_append]
    by_cases hm : Json.foldName m.1 = Json.foldName name
    · rw [if_pos hm, if_pos hm, Option.getD_or]
    · rw [if_neg hm, if_neg hm]

theorem not_set {other : Bytes} {m : Bytes × Bytes} (h : Json.foldName m.1 = Json.foldName other)
    (hne : Json.foldName other ≠ Json.foldName name) (x y : β) :
    y = if Json.foldName m.1 = Json.foldName name then x else y :=
  (if_neg fun hc => hne (h.symm.trans hc)).symm

end

theorem storeString_eq (old raw : Bytes) :
    storeString old raw =
      if isNull raw = true ∨ (stringOf raw).isSome then some ((stringOf raw).getD old) else none := by
  unfold storeString isNull stringOf
  cases Json.parse raw with
  | none => rfl
  | some v => cases v <;> simp

theorem eq_of_storeString {old raw s : Bytes} (h : storeString old raw = some s) : s = (stringOf raw).getD old := by
  rw [storeString_eq] at h
  split at h
  · exact (Option.some.inj h).symm
  · cases h

inductive Effect (ev : IngestEvent) (m : Bytes × Bytes) : IngestEvent → Prop
  | message {s} : Json.foldName m.1 = Json.foldName (bs "message") → storeString ev.message m.2 = some s →
      Effect ev m { ev with message := s }
  | level {l} : Json.foldName m.1 = Json.foldName (bs "level") → unmarshalLevel m.2 = some l →
      Effect ev m { ev with level := some l }
  | service {s} : Json.foldName m.1 = Json.foldName (bs "service") → storeString ev.service m.2 = some s →
      Effect ev m { ev with service := s }
  | clear : Json.foldName m.1 = Json.foldName (bs "ts") → isNull m.2 = true → Effect ev m { ev with ts := none }
  | ts {t} : Json.foldName m.1 = Json.foldName (bs "ts") → isNull m.2 = false → unmarshalTime m.2 = some t →
      Effect ev m { ev with ts := some t }
  | skip : (∀ name ∈ ingestKeys, Json.foldName m.1 ≠ Json.foldName name) → Effect ev m ev

theorem effect_of_store {ev ev' : IngestEvent} {m : Bytes × Bytes} (h : ev.store m = some ev') : Effect ev m ev' := by
  unfold IngestEvent.store at h
  split at h
  · obtain ⟨s, hs, rfl⟩ := Option.map_eq_some_iff.mp h
    exact .message ‹_› hs
  split at h
  · obtain ⟨l, hl, rfl⟩ := Option.map_eq_some_iff.mp h
    exact .level ‹_› hl
  split at h
  · obtain ⟨s, hs, rfl⟩ := Option.map_eq_some_iff.mp h
    exact .service ‹_› hs
  split at h
  · split at h
    · cases h
      exact .clear ‹_› ‹_›
    · obtain ⟨t, ht, rfl⟩ := Option.map_eq_some_iff.mp h
      exact .ts ‹_› ((Bool.not_eq_true _).mp ‹_›) ht
  · cases h
    refine .skip fun name hn => ?_
    simp only [ingestKeys, List.mem_cons, List.not_mem_nil, or_false] at hn
    rcases hn with rfl | rfl | rfl | rfl <;> assumption

theorem sets_service : Sets IngestEvent.service stringOf (bs "service") := by
  intro ev m ev' h
  cases effect_of_store h with
  | service hn hs =>
    rw [if_pos hn]
    exact eq_of_storeString hs
  | message hn _ | level hn _ | clear hn _ | ts hn _ _ => exact not_set hn (by decide) _ _
  | skip hn => exact (if_neg (hn _ (by decide))).symm

theorem sets_level : Sets IngestEvent.level setLevel (bs "level") := by
  intro ev m ev' h
  cases effect_of_store h with
  | level hn hl =>
    rw [if_pos hn, setLevel, hl]
    rfl
  | message hn _ | service hn _ | clear hn _ | ts hn _ _ => exact not_set hn (by decide) _ _
  | skip hn => exact (if_neg (hn _ (by decide))).symm

theorem sets_ts : Sets IngestEvent.ts setTime (bs "ts") := by
  intro ev m ev' h
  cases effect_of_store h with
  | clear hn h0 =>
    rw [if_pos hn, setTime, if_pos h0]
    rfl
  | ts hn h0 ht =>
    rw [if_pos hn, setTime, if_neg (by simp [h0]), ht]
    rfl
  | message hn _ | level hn _ | service hn _ => exact not_set hn (by decide) _ _
  | skip hn => exact (if_neg (hn _ (by decide))).symm

/-! ## Both ends -/

theorem validateRaw_eq_none {raw : Bytes} (h : validateRaw raw = none) :
    ∃ ev members, unmarshalIngestEvent raw = some ev ∧ Json.parse raw = some (.object members) ∧
      storeAll members = some ev ∧ trimSpace ev.message ≠ [] := by
  unfold validateRaw at h
  cases hev : unmarshalIngestEvent raw with
  | none => simp [hev] at h
  | some ev =>
    have hmsg : trimSpace ev.message ≠ [] := by
      intro e
      simp [hev, e] at h
    unfold unmarshalIngestEvent at hev
    split at hev
    · cases hev
      exact absurd rfl hmsg
    · exact ⟨ev, _, rfl, ‹_›, hev, hmsg⟩
    · cases hev

section
variable {ff : Bytes → Option Bytes} {raw : Bytes} {members : List (Bytes × Bytes)} {ev : IngestEvent}

theorem textOf_eq (raw : Bytes) :
    textOf raw = (Json.decodeString raw).bind fun s => if s = [] then none else some s := by
  unfold textOf stringOf Json.decodeString
  cases Json.parse raw with
  | none => rfl
  | some v =>
    cases v with
    | string s => by_cases h : s = [] <;> simp [Option.filter, h]
    | _ => rfl

theorem lookup_bind_decodeMap {β : Type} (read : Bytes → Option β) (keys : List Bytes) :
    (keys.findSome? fun k => ((decodeMap members).lookup k).bind read) = found read keys members := by
  unfold found
  congr 1
  funext k
  rw [lookup_decodeMap, Option.bind_map]
  rfl

theorem firstString_decodeMap (keys : List Bytes) :
    firstString (goDecoder ff) (decodeMap members) keys = (found textOf keys members).getD [] := by
  rw [← lookup_bind_decodeMap, funext textOf_eq]
  rfl

theorem parseLevel_decodeMap :
    parseLevel (goDecoder ff) (decodeMap members) = (found unmarshalLevel levelKeys members).getD .info := by
  rw [← lookup_bind_decodeMap]
  rfl

theorem timeOf_goDecoder (raw : Bytes) : timeOf (goDecoder ff) raw = instantOf raw := by
  unfold timeOf instantOf
  rw [textOf_eq, Option.bind_assoc]
  have hs : ((goDecoder ff).string raw).bind (fun s => if s = [] then none else (goDecoder ff).time s) =
      (Json.decodeString raw).bind fun s => (if s = [] then none else some s).bind parseRFC3339 := by
    congr 1
    funext s
    split <;> rfl
  rw [hs]
  split <;> rename_i ht <;> rw [ht] <;> rfl

theorem parseTS_decodeMap (env : Envelope) (now : Time) :
    parseTS (goDecoder ff) (decodeMap members) env now =
      (found instantOf tsKeys members).getD (if isZero env.receivedAt then now else env.receivedAt) := by
  have htime : timeOf (goDecoder ff) = instantOf := funext timeOf_goDecoder
  unfold parseTS
  rw [htime, lookup_bind_decodeMap]
  cases found instantOf tsKeys members <;> rfl

theorem trimSpace_getD_iff {found : Option Bytes} : trimSpace (found.getD []) ≠ [] ↔ ∃ s ∈ found, trimSpace s ≠ [] := by
  cases found with
  | none => simp [show trimSpace [] = [] from rfl]
  | some s => simp

theorem getD_nil_agrees_iff {found seen : Option Bytes} :
    (seen.getD [] ≠ [] → found.getD [] = seen.getD []) ↔ ∀ s ∈ seen, s ≠ [] → found = some s := by
  cases seen with
  | none => simp
  | some s =>
    simp only [Option.getD_some, Option.mem_some_iff, forall_eq']
    refine forall_congr' fun hs => ?_
    cases found <;> simp [hs.symm]

theorem getD_none_eq_join {α : Type} (seen : Option (Option α)) : seen.getD none = seen.join := by
  cases seen <;> rfl

theorem eq_some_of_getD {α : Type} {found : Option α} {other a : α} (hother : other ≠ a) (h : found.getD other = a) :
    found = some a := by
  cases found with
  | none => exact absurd h hother
  | some b => exact congrArg some h

theorem normalize_of_object (tc : TenantContext) (now : Time) {env : Envelope} {m : Labels}
    (h : (goDecoder ff).object env.raw = some m) :
    ∃ ev, normalize (goDecoder ff) tc env now = .ok ev ∧ ev.raw = env.raw ∧ ev.ts = parseTS (goDecoder ff) m env now ∧
      ev.service = firstString (goDecoder ff) m serviceKeys ∧ ev.level = parseLevel (goDecoder ff) m ∧
      ev.message = firstString (goDecoder ff) m messageKeys ∧ ev.labels = parseLabels (goDecoder ff) m := by
  have hne : env.raw ≠ [] := fun he => by
    rw [he] at h
    cases h
  unfold normalize
  rw [if_neg hne, h]
  exact ⟨_, rfl, rfl, rfl, rfl, rfl, rfl, rfl⟩

theorem normalize_of_members (ff : Bytes → Option Bytes) (tc : TenantContext) (env : Envelope) (now : Time)
    (h : Json.parse env.raw = some (.object members)) :
    ∃ ev, normalize (goDecoder ff) tc env now = .ok ev ∧ ev.message = (found textOf messageKeys members).getD [] ∧
      ev.service = (found textOf serviceKeys members).getD [] ∧
      ev.level = (found unmarshalLevel levelKeys members).getD .info ∧
      ev.ts = (found instantOf tsKeys members).getD (if isZero env.receivedAt then now else env.receivedAt) := by
  have hobj : (goDecoder ff).object env.raw = some (decodeMap members) := by simp [goDecoder, h]
  obtain ⟨ev, hev, -, hts, hservice, hlevel, hmessage, -⟩ := normalize_of_object tc now hobj
  exact ⟨ev, hev, hmessage.trans (firstString_decodeMap _), hservice.trans (firstString_decodeMap _),
    hlevel.trans parseLevel_decodeMap, hts.trans (parseTS_decodeMap env now)⟩

end

/-- **What is accepted is not lost.** A payload that passes the validation is no poison. Its events have a message,
and the service, the level and the time if the payload set them, just if the members of the payload agree. -/
theorem normalize_agrees_iff (ff : Bytes → Option Bytes) {raw : Bytes} (h : validateRaw raw = none) :
    ∃ seen members, unmarshalIngestEvent raw = some seen ∧ Json.parse raw = some (.object members) ∧
      (∀ tc env now, env.raw = raw → ∃ ev, normalize (goDecoder ff) tc env now = .ok ev) ∧
      ((∀ tc env now ev, env.raw = raw → normalize (goDecoder ff) tc env now = .ok ev →
        trimSpace ev.message ≠ [] ∧ (seen.service ≠ [] → ev.service = seen.service) ∧
        (∀ l, seen.level = some l → ev.level = l) ∧ ∀ t, seen.ts = some t → ev.ts = t) ↔ Agree members) := by
  obtain ⟨ev, members, hseen, hparse, hstore, -⟩ := validateRaw_eq_none h
  have hservice : ev.service = (seen stringOf (bs "service") members).getD [] := sets_service.run hstore
  have hlevel : ev.level = (seen setLevel (bs "level") members).join :=
    (sets_level.run hstore).trans (getD_none_eq_join _)
  have hts : ev.ts = (seen setTime (bs "ts") members).join := (sets_ts.run hstore).trans (getD_none_eq_join _)
  have hnormal (tc : TenantContext) (env : Envelope) (now : Time) (hraw : env.raw = raw) :=
    normalize_of_members ff tc env now (hraw ▸ hparse)
  refine ⟨ev, members, hseen, hparse, fun tc env now hraw => ?_, fun hall => ?_, ?_⟩
  · obtain ⟨out, hout, -⟩ := hnormal tc env now hraw
    exact ⟨out, hout⟩
  · have hat (t : Time) : _ := hnormal { tenantId := [] } { tenantId := [], receivedAt := t, raw } t rfl
    obtain ⟨out, hout, hm, hs, hl, -⟩ := hat 0
    obtain ⟨h1, h2, h3, -⟩ := hall _ _ _ out rfl hout
    rw [hm] at h1
    rw [hs, hservice] at h2
    refine ⟨trimSpace_getD_iff.mp h1, getD_nil_agrees_iff.mp h2, fun l hset => ?_, fun t hset => ?_⟩
    · rw [← hl]
      exact h3 l (hlevel.trans hset)
    · -- the time of the receipt may be any, so it does not stand in for the one that was set
      obtain ⟨out, hout, -, -, -, htime⟩ := hat (t + 1)
      obtain ⟨-, -, -, h4⟩ := hall _ _ _ out rfl hout
      rw [ite_self] at htime
      exact eq_some_of_getD (by simp) (htime.symm.trans (h4 t (hts.trans hset)))
  · rintro ⟨hmessage, hsv, hlv, htv⟩ tc env now out hraw hout
    obtain ⟨out', hout', hm, hs, hl, ht⟩ := hnormal tc env now hraw
    obtain rfl : out' = out := Except.ok.inj (hout'.symm.trans hout)
    refine ⟨?_, ?_, fun l hset => ?_, fun t hset => ?_⟩
    · rw [hm]
      exact trimSpace_getD_iff.mpr hmessage
    · rw [hs, hservice]
      exact getD_nil_agrees_iff.mpr hsv
    · rw [hl]
      exact hlv l (hlevel.symm.trans hset)
    · rw [ht, htv t (hts.symm.trans hset)]
      rfl

/-! ### Spellings -/

def payloadEnvelope (raw : Bytes) : Envelope := { tenantId := [], receivedAt := 0, raw }

def payloadEvent (raw : Bytes) : Option LogEvent :=
  (normalize (goDecoder fun _ => none) { tenantId := [] } (payloadEnvelope raw) 0).toOption

/-- A message whose key is capitalized is accepted and stored empty, and so is one that a `null` follows.
The level and the service of other spellings are lost, and a time is replaced by that of the receipt. -/
theorem accepted_payload_lost :
    let message := bs "\x7b\"Message\":\"disk full\"\x7d"
    let null := bs "\x7b\"message\":\"disk full\",\"message\":null\x7d"
    let fields := bs "\x7b\"message\":\"m\",\"LEVEL\":\"fatal\",\"Service\":\"api\",\"tS\":\"2026-01-01T00:00:00Z\"\x7d"
    (∀ raw ∈ [message, null, fields], validateRaw raw = none) ∧
    (payloadEvent message).map LogEvent.message = some [] ∧
    (payloadEvent null).map LogEvent.message = some [] ∧
    (payloadEvent fields).map (fun ev => (ev.level, ev.service, ev.ts)) = some (.info, [], 0) ∧
    (unmarshalIngestEvent fields).map (fun ev => (ev.level, ev.service, ev.ts)) =
      some (some .fatal, bs "api", some 1767225600000000000) := by
  decide

/-- A payload with all four fields; a message of another spelling is passed over, and the service stands under an
alias too. -/
theorem agreeing_payload_kept :
    let raw := bs "\x7b\"Level\":\"info\",\"message\":\"m\",\"MESSAGE\":\"n\",\"level\":\"fatal\"," ++
      bs "\"Service\":\"api\",\"svc\":\"api\",\"ts\":\"2026-01-01T00:00:00Z\"\x7d"
    ∃ ev, normalize (goDecoder fun _ => none) { tenantId := [] } (payloadEnvelope raw) 0 = .ok ev ∧
      trimSpace ev.message ≠ [] ∧ ev.service = bs "api" ∧ ev.level = .fatal ∧ ev.ts = 1767225600000000000 := by
  intro raw
  have hok : validateRaw raw = none := by decide +kernel
  obtain ⟨seen, members, hseen, hp, hall, hiff⟩ := normalize_agrees_iff (fun _ => none) hok
  have hs : some seen = some ⟨bs "n", some .fatal, bs "api", some 1767225600000000000⟩ := by
    rw [← hseen]
    decide +kernel
  cases hs
  have hms : some (Json.Value.object members) = some (.object [(bs "Level", bs "\"info\""),
      (bs "message", bs "\"m\""), (bs "MESSAGE", bs "\"n\""), (bs "level", bs "\"fatal\""),
      (bs "Service", bs "\"api\""), (bs "svc", bs "\"api\""), (bs "ts", bs "\"2026-01-01T00:00:00Z\"")]) := by
    rw [← hp]
    decide +kernel
  cases hms
  obtain ⟨ev, hev⟩ := hall { tenantId := [] } (payloadEnvelope raw) 0 rfl
  obtain ⟨h1, h2, h3, h4⟩ := hiff.mpr (by decide) _ _ _ ev rfl hev
  exact ⟨ev, hev, h1, h2 (by decide), h3 _ rfl, h4 _ rfl⟩

end Logalot
