import Logalot.ColdQuerySound
import Logalot.ColdSearch
import Logalot.PartitionsSound

/-!
# Pages of the archive

Athena returns a result in pages of at most a thousand rows, the first of which
begins with the names of the columns. `fetchResults` reads the first page, so
that a search has all its rows exactly when there are no more pages with rows.
-/

namespace Logalot

open Go

/-! ## Results of Athena -/

def sqlLimit (sql : Bytes) : Nat := parseNat (sql.reverse.takeWhile isDigit).reverse

theorem sqlLimit_append (s : Bytes) (n : Nat) : sqlLimit (s ++ [32] ++ natDigits n) = n := by
  have hdigits : ∀ c ∈ (natDigits n).reverse, isDigit c = true := fun c hc =>
    isDigit_of_mem_natDigits (List.mem_reverse.mp hc)
  have hstop : (([32] : Bytes).reverse ++ s.reverse).takeWhile isDigit = [] := rfl
  unfold sqlLimit
  rw [List.reverse_append, List.reverse_append, List.takeWhile_append_of_pos hdigits, hstop, List.append_nil,
    List.reverse_reverse, parseNat_natDigits]

theorem sqlLimit_buildColdQuery (now : Time) (tc : TenantContext) {q : SearchQuery} (h : 1 ≤ q.limit)
    (h' : q.limit ≤ 1000) : sqlLimit (buildColdQuery now tc q) = q.limit.toNat := by
  have hclamp : clampLimit q.limit = (q.limit.toNat : Int) := by
    have hmax : maxSearchLimit = 1000 := rfl
    unfold clampLimit
    rw [if_neg (by omega)]
    omega
  have hlast : bs "\nORDER BY ts DESC\nLIMIT " = bs "\nORDER BY ts DESC\nLIMIT" ++ [32] := by decide
  obtain ⟨s, hs⟩ : ∃ s, buildColdQuery now tc q = s ++ bs "\nORDER BY ts DESC\nLIMIT " ++ itoa (clampLimit q.limit) :=
    ⟨_, rfl⟩
  rw [hs, hclamp, itoa_natCast, hlast, ← List.append_assoc]
  exact sqlLimit_append _ _

/-- A statement that Athena runs to its end: the rows that match it, the rows it returns for its limit, and their
pages. -/
structure AthenaRun (a : Athena) (sql : Bytes) where
  qid : Bytes
  started : a.start sql = .ok qid
  succeeded : pollQuery a.contextErr (a.polls qid) = none
  matching : List AthenaRow
  header : AthenaRow
  firstRows : List AthenaRow
  morePages : List (List AthenaRow)
  limited : firstRows ++ morePages.flatten = matching.take (sqlLimit sql)
  first_le : firstRows.length + 1 ≤ 1000
  more_le : ∀ page ∈ morePages, page.length ≤ 1000
  firstPage : a.results qid = .ok (header :: firstRows)

section
variable {a : Athena} {now : Time} {tc : TenantContext} {q : SearchQuery}

theorem search_of_run (hv : tc.valid = none) (h : 1 ≤ q.limit) (h' : q.limit ≤ 1000)
    (run : AthenaRun a (buildColdQuery now tc q)) :
    ColdStore.search ⟨true, some a⟩ now tc q = (⟨run.firstRows.map rowToEvent, none⟩, none) := by
  have hgate := checkTenantPredicate_buildColdQuery now tc q hv
  have hlen : run.firstRows.length ≤ q.limit.toNat := by
    have hle := congrArg List.length run.limited
    rw [List.length_append, List.length_take, sqlLimit_buildColdQuery now tc h h'] at hle
    omega
  unfold ColdStore.search Athena.run
  simp only [Bool.not_true, Bool.false_eq_true, if_false, hv, hgate, run.started, run.succeeded, run.firstPage]
  unfold fetchResults
  rw [List.tail_cons]
  simp only [List.length_map]
  rw [if_neg (by omega)]

/-- **Pages of a result.** A search of the archive returns the first rows up to the limit exactly when no further
page has rows. If only the last page is not full, this is when at most 999 rows are to be returned. -/
theorem coldSearch_first_iff (hv : tc.valid = none) (h : 1 ≤ q.limit) (h' : q.limit ≤ 1000)
    (run : AthenaRun a (buildColdQuery now tc q)) :
    (ColdStore.search ⟨true, some a⟩ now tc q =
        (⟨(run.matching.take q.limit.toNat).map rowToEvent, none⟩, none) ↔ run.morePages.flatten = []) ∧
    ((run.morePages ≠ [] → run.firstRows.length + 1 = 1000) →
      (run.morePages.flatten = [] ↔ min q.limit.toNat run.matching.length ≤ 999)) := by
  have hlimited := run.limited
  rw [sqlLimit_buildColdQuery now tc h h'] at hlimited
  have hlen := congrArg List.length hlimited
  rw [List.length_append, List.length_take] at hlen
  constructor
  · rw [search_of_run hv h h' run, ← hlimited, List.map_append]
    constructor
    · intro he
      simp only [Prod.mk.injEq, SearchPage.mk.injEq, and_true] at he
      have hnil := List.append_right_eq_self.mp he.symm
      exact List.map_eq_nil_iff.mp hnil
    · intro hnil
      rw [hnil, List.map_nil, List.append_nil]
  · intro hfull
    constructor
    · intro hnil
      rw [hnil, List.length_nil] at hlen
      have := run.first_le
      omega
    · intro hle
      by_contra hne
      have hpages : run.morePages ≠ [] := fun hnil => hne (by rw [hnil, List.flatten_nil])
      have hpos := List.length_pos_iff.mpr hne
      have := hfull hpages
      omega

end

/-! ### A thousand rows, and two -/

section
open Pipeline

def infoRow : AthenaRow := [some (bs "0"), some [], some [], some (bs "info"), some [], some []]

def athenaOf (rows : List AthenaRow) : Athena where
  start _ := .ok []
  polls _ := [.ok .succeeded]
  contextErr := []
  results _ := .ok ([] :: rows)

def thousandQuery : SearchQuery := { limit := 1000 }

theorem sqlLimit_thousand : sqlLimit (buildColdQuery juneFirst sampleContext thousandQuery) = 1000 :=
  sqlLimit_buildColdQuery juneFirst sampleContext (by decide) (by decide)

/-- A thousand rows and the names of the columns take two pages. -/
def thousandRun :
    AthenaRun (athenaOf (List.replicate 999 infoRow)) (buildColdQuery juneFirst sampleContext thousandQuery) where
  qid := []
  started := rfl
  succeeded := rfl
  matching := List.replicate 1000 infoRow
  header := []
  firstRows := List.replicate 999 infoRow
  morePages := [[infoRow]]
  limited := by
    rw [sqlLimit_thousand, List.take_replicate, Nat.min_self, List.flatten_singleton, ← List.replicate_one,
      List.replicate_append_replicate]
  first_le := by rw [List.length_replicate]
  more_le page hpage := by
    rw [List.mem_singleton.mp hpage]
    decide
  firstPage := rfl

theorem thousandth_row_lost :
    thousandRun.matching.length = 1000 ∧
    (ColdStore.search ⟨true, some (athenaOf (List.replicate 999 infoRow))⟩ juneFirst sampleContext
      thousandQuery).1.events.length = 999 := by
  have hv : sampleContext.valid = none := by decide
  rw [search_of_run hv (by decide) (by decide) thousandRun]
  constructor
  · exact List.length_replicate
  · rw [List.length_map]
    exact List.length_replicate

/-- A row of a level that is none, and one whose time and labels cannot be read. -/
def oddRows : List AthenaRow :=
  [[some (bs "7"), some (bs "b"), none, some (bs "notice"), none, some (bs "\x7b\"k\":\"v\"\x7d")],
    [some (bs "-"), some (bs "a"), none, none, none, some (bs "[]")]]

def oddRun : AthenaRun (athenaOf oddRows) (buildColdQuery juneFirst sampleContext thousandQuery) where
  qid := []
  started := rfl
  succeeded := rfl
  matching := oddRows
  header := []
  firstRows := oddRows
  morePages := []
  limited := by
    rw [sqlLimit_thousand]
    rfl
  first_le := by decide
  more_le _ hpage := absurd hpage List.not_mem_nil
  firstPage := rfl

theorem odd_rows_returned :
    ColdStore.search ⟨true, some (athenaOf oddRows)⟩ juneFirst sampleContext thousandQuery =
      (⟨[⟨[], 7000000, bs "b", [], bs "notice", [], [(bs "k", bs "v")], [], [], []⟩,
        ⟨[], zeroTime, bs "a", [], [], [], [], [], [], []⟩], none⟩, none) := by
  have hv : sampleContext.valid = none := by decide
  have hevents : oddRows.map rowToEvent = [⟨[], 7000000, bs "b", [], bs "notice", [], [(bs "k", bs "v")], [], [], []⟩,
      ⟨[], zeroTime, bs "a", [], [], [], [], [], [], []⟩] := by decide +kernel
  rw [(coldSearch_first_iff hv (by decide) (by decide) oddRun).1.mpr rfl, ← hevents]
  rfl

end

end Logalot
