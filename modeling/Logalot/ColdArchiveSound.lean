import Logalot.ColdArchive

/-!
# Where an event is archived

An object is written under the prefix of the tenant of the context, and its
date is that of every event in it.
-/

namespace Logalot

open Go

/-! ## Objects -/

theorem mem_putObjects {puts : Nat → Bool} : ∀ {i : Nat} {os : List ColdObject} {o : ColdObject},
    o ∈ (putObjects puts i os).1 → o ∈ os
  | _, [], _, h => h
  | i, x :: os, o, h => by
    rw [putObjects] at h
    split at h
    · rcases List.mem_cons.mp h with rfl | h
      · exact List.mem_cons_self
      · exact List.mem_cons_of_mem _ (mem_putObjects h)
    · cases h

variable {tc : TenantContext}

theorem key_of_archive {filed : Nat → Time} {encoded : Nat → Nat → Time} {ids : Nat → Bytes}
    {puts : Nat → Bool} {events : List LogEvent} {o : ColdObject}
    (h : o ∈ (archive tc filed encoded ids puts events).1) :
    isUUID tc.tenantId = true ∧ ∃ i, o.key = coldKey tc.tenantId (ids i) o.t := by
  unfold archive at h
  split at h
  · cases h
  · rename_i hv
    refine ⟨TenantContext.isUUID_of_valid hv, ?_⟩
    obtain ⟨⟨g, i⟩, -, rfl⟩ := List.mem_map.mp (mem_putObjects h)
    exact ⟨i, rfl⟩

/-! ## Groups -/

structure EventGroup.Filed (now : Nat → Time) (g : EventGroup) : Prop where
  pk : g.pk = partitionKey g.t
  events : ∀ ev ∈ g.events, ∃ i, partitionKey (resolveTS (now i) ev) = g.pk

theorem filed_addToGroup {now : Nat → Time} {groups : List EventGroup} (h : ∀ g ∈ groups, g.Filed now) (i : Nat)
    (ev : LogEvent) : ∀ g ∈ addToGroup groups (resolveTS (now i) ev) ev, g.Filed now := by
  intro g hg
  unfold addToGroup at hg
  split at hg
  · obtain ⟨g', hg', rfl⟩ := List.mem_map.mp hg
    split
    · rename_i hpk
      refine ⟨(h g' hg').pk, fun x hx => ?_⟩
      rcases List.mem_append.mp hx with hx | hx
      · exact (h g' hg').events x hx
      · rw [List.mem_singleton.mp hx]
        exact ⟨i, hpk.symm⟩
    · exact h g' hg'
  · rcases List.mem_append.mp hg with hg | hg
    · exact h g hg
    · rw [List.mem_singleton.mp hg]
      refine ⟨rfl, fun x hx => ?_⟩
      rw [List.mem_singleton.mp hx]
      exact ⟨i, rfl⟩

theorem filed_partitionEvents {now : Nat → Time} {events : List LogEvent} {g : EventGroup}
    (h : g ∈ partitionEvents now events) : g.Filed now := by
  have hfold : ∀ (evs : List (LogEvent × Nat)) (groups : List EventGroup), (∀ g ∈ groups, g.Filed now) →
      ∀ g ∈ evs.foldl (fun groups x => addToGroup groups (resolveTS (now x.2) x.1) x.1) groups, g.Filed now := by
    intro evs
    induction evs with
    | nil => exact fun _ hg => hg
    | cons x evs ih => exact fun groups hg => ih _ (filed_addToGroup hg x.2 x.1)
  rw [partitionEvents, List.mem_insertionSort] at h
  exact hfold _ [] (fun g hg => by cases hg) g h

theorem hour_bounds (t : Time) : 0 ≤ hour t ∧ hour t < 10 ^ 2 := by
  unfold hour
  omega

theorem partitionKey_inj {t u : Time} (h : partitionKey t = partitionKey u) :
    formatDate t = formatDate u ∧ hour t = hour u := by
  have hlen : ∀ t, (padInt (hour t) 2).length = 2 := fun t =>
    length_padInt (hour_bounds t).1 (hour_bounds t).2 (by decide)
  unfold partitionKey at h
  obtain ⟨h, hhour⟩ := List.append_inj' h ((hlen t).trans (hlen u).symm)
  exact ⟨List.append_cancel_right h, padInt_inj hhour⟩

/-- **The date of an archived event.** An event with a time is in an object of its date. -/
theorem date_of_archived {ev : LogEvent} {o : ColdObject} (h : Archived tc ev o)
    (hz : isZero ev.ts = false) : isUUID tc.tenantId = true ∧ (∃ batchID, o.key = coldKey tc.tenantId batchID o.t) ∧
      formatDate o.t = formatDate ev.ts ∧ unixDay o.t = unixDay ev.ts := by
  obtain ⟨filed, encoded, batchIDs, puts, events, ho, g, hg, now, batchID, hev, rfl⟩ := h
  obtain ⟨hu, i, hkey⟩ := key_of_archive ho
  have hfiled := filed_partitionEvents hg
  obtain ⟨j, hj⟩ := hfiled.events ev hev
  rw [resolveTS, if_neg (by simp [hz]), hfiled.pk] at hj
  have hdate := (partitionKey_inj hj.symm).1
  exact ⟨hu, ⟨_, hkey⟩, hdate, unixDay_of_formatDate hdate⟩

theorem archived_alone (hv : tc.valid = none) {ev : LogEvent} (hz : isZero ev.ts = false) :
    Archived tc ev (coldObject tc (fun _ => 0) [] ⟨partitionKey ev.ts, ev.ts, [ev]⟩) := by
  have hg : partitionEvents (fun _ => 0) [ev] = [⟨partitionKey ev.ts, ev.ts, [ev]⟩] := by
    simp [partitionEvents, addToGroup, resolveTS, hz]
  refine ⟨fun _ => 0, fun _ _ => 0, fun _ => [], fun _ => true, [ev], ?_,
    ⟨partitionKey ev.ts, ev.ts, [ev]⟩, ?_, fun _ => 0, [], List.mem_cons_self, rfl⟩
  · simp [archive, hv, hg, coldObjects, putObjects]
  · rw [hg]
    exact List.mem_cons_self

end Logalot
