import Logalot.Lib.Split
import Logalot.Mail

/-!
# No header is injected

The first empty line of a message is the one after its seven headers, whatever
stands in the recipient, the subject and the body.
-/

namespace Logalot.Mail

open Go

/-! ## Values on one line -/

theorem replaceAll_byte (c : UInt8) (new s : Bytes) :
    replaceAll s [c] new = s.flatMap fun b => if b = c then new else [b] := by
  unfold replaceAll
  induction s with
  | nil => rfl
  | cons b s ih =>
    rw [replaceFrom, List.flatMap_cons, ih]
    by_cases h : b = c
    · rw [if_pos h, if_pos (by simp [h])]
      exact congrArg (new ++ ·) ih
    · rw [if_neg h, if_neg (by simpa using Ne.symm h)]
      rfl

theorem oneLine_append {s t : Bytes} : OneLine (s ++ t) ↔ OneLine s ∧ OneLine t := by
  simp only [OneLine, List.mem_append, not_or]
  tauto

theorem oneLine_sanitizeHeaderValue (v : Bytes) : OneLine (sanitizeHeaderValue v) := by
  have hcr : bs "\r" = [13] := by decide
  have hlf : bs "\n" = [10] := by decide
  have hsp : bs " " = [32] := by decide
  have hno : 13 ∉ replaceAll v [13] [] := by
    rw [replaceAll_byte]
    simp
  unfold sanitizeHeaderValue
  rw [hcr, hlf, hsp]
  generalize replaceAll v [13] [] = w at hno
  rw [replaceAll_byte]
  constructor
  · intro h
    obtain ⟨b, hb, h⟩ := List.mem_flatMap.mp h
    split at h
    · simp at h
    · rw [List.mem_singleton] at h
      exact hno (h ▸ hb)
  · intro h
    obtain ⟨b, hb, h⟩ := List.mem_flatMap.mp h
    split at h
    · simp at h
    · rename_i hne
      exact hne (List.mem_singleton.mp h).symm

theorem oneLine_of_digits {s : Bytes} (h : ∀ c ∈ s, c = 45 ∨ isDigit c = true) : OneLine s := by
  constructor
  · intro hm
    exact absurd (h 13 hm) (by decide)
  · intro hm
    exact absurd (h 10 hm) (by decide)

theorem oneLine_padInt (n : Int) (w : Nat) : OneLine (padInt n w) := oneLine_of_digits fun _ h => mem_padInt h

theorem oneLine_getD {l : List Bytes} (h : ∀ s ∈ l, OneLine s) (i : Nat) : OneLine (l.getD i []) := by
  rw [List.getD_eq_getElem?_getD]
  cases hi : l[i]? with
  | none => exact ⟨List.not_mem_nil, List.not_mem_nil⟩
  | some s => exact h s (List.mem_of_getElem? hi)

theorem oneLine_formatRFC1123Z (t : Time) : OneLine (formatRFC1123Z t) := by
  have hdays : ∀ s ∈ shortDayNames, OneLine s := by decide
  have hmonths : ∀ s ∈ shortMonthNames, OneLine s := by decide
  have hcomma : OneLine (bs ", ") := by decide
  have hspace : OneLine (bs " ") := by decide
  have hcolon : OneLine (bs ":") := by decide
  have hzone : OneLine (bs " +0000") := by decide
  simp only [formatRFC1123Z, oneLine_append, oneLine_padInt, oneLine_getD hdays, oneLine_getD hmonths, hcomma, hspace,
    hcolon, hzone, and_self]

theorem oneLine_hex (buf : Bytes) : OneLine (hex buf) := by
  have hbyte : ∀ b : UInt8, OneLine [Json.hexByte (b / 16), Json.hexByte (b % 16)] := by decide +kernel
  constructor
  · intro h
    obtain ⟨b, -, hb⟩ := List.mem_flatMap.mp h
    exact (hbyte b).1 hb
  · intro h
    obtain ⟨b, -, hb⟩ := List.mem_flatMap.mp h
    exact (hbyte b).2 hb

theorem oneLine_domain {sender : Bytes} (h : OneLine sender) : OneLine (domain sender) := by
  have hsub : ∀ c, c ∈ (sender.reverse.takeWhile (· != 64)).reverse → c ∈ sender := fun c hc =>
    List.mem_reverse.mp ((List.takeWhile_sublist _).subset (List.mem_reverse.mp hc))
  unfold domain
  dsimp only
  split
  · exact ⟨fun hc => h.1 (hsub _ hc), fun hc => h.2 (hsub _ hc)⟩
  · decide

theorem oneLine_itoa (n : Int) : OneLine (itoa n) := by
  refine oneLine_of_digits fun c hc => ?_
  unfold itoa at hc
  split at hc
  · exact (List.mem_cons.mp hc).imp_right isDigit_of_mem_natDigits
  · exact .inr (isDigit_of_mem_natDigits hc)

theorem oneLine_newMessageID (stamp : Time) (buf : Bytes) {sender : Bytes} (h : OneLine sender) :
    OneLine (newMessageID stamp buf sender) := by
  have hlt : OneLine (bs "<") := by decide
  have hdot : OneLine (bs ".") := by decide
  have hat : OneLine (bs "@") := by decide
  have hgt : OneLine (bs ">") := by decide
  simp only [newMessageID, oneLine_append, hlt, oneLine_itoa, hdot, oneLine_hex, hat, oneLine_domain h, hgt, and_self]

/-! ## The first empty line -/

theorem cut_lines {line : Bytes} {lines : List Bytes} (h : ∀ l ∈ line :: lines, l ≠ [] ∧ OneLine l) (body : Bytes) :
    cut [13, 10, 13, 10] ([13, 10].intercalate (line :: lines) ++ ([13, 10, 13, 10] ++ body)) =
      some ([13, 10].intercalate (line :: lines), body) := by
  induction lines generalizing line with
  | nil =>
    have hline := (h line List.mem_cons_self).2.1
    have hone : [13, 10].intercalate [line] = line := by simp [List.intercalate]
    rw [hone, cut_append_of_not_mem _ hline, cut_self_append, Option.map_some, List.append_nil]
  | cons line' lines ih =>
    obtain ⟨⟨-, hline⟩, hrest⟩ := List.forall_mem_cons.mp h
    obtain ⟨hne, hline'⟩ := hrest line' List.mem_cons_self
    -- the next line does not start with a carriage return
    obtain ⟨c, t, ht⟩ : ∃ c t, [13, 10].intercalate (line' :: lines) ++ ([13, 10, 13, 10] ++ body) =
        c :: t ∧ c ≠ 13 := by
      obtain ⟨c, w, rfl⟩ := List.exists_cons_of_ne_nil hne
      have hc : c ≠ 13 := fun e => hline'.1 (e ▸ List.mem_cons_self)
      cases lines with
      | nil => exact ⟨c, _, rfl, hc⟩
      | cons l ls => exact ⟨c, _, rfl, hc⟩
    have hskip : cut [13, 10, 13, 10] (13 :: 10 :: c :: t) =
        (cut [13, 10, 13, 10] (c :: t)).map fun p => (13 :: 10 :: p.1, p.2) := by
      rw [cut, if_neg (by simp [ht.2.symm]), cut, if_neg (by simp), Option.map_map]
      rfl
    rw [Split.intercalate_cons (List.cons_ne_nil _ _), List.append_assoc, cut_append_of_not_mem _ hline.1,
      List.append_assoc, ht.1]
    show (cut [13, 10, 13, 10] (13 :: 10 :: c :: t)).map _ = _
    rw [hskip, ← ht.1, ih hrest]
    rfl

theorem crlf_eq : bs "\r\n" = [13, 10] := by decide

def headerLines (now stamp : Time) (buf sender recipient subject : Bytes) : List Bytes :=
  [bs "From: " ++ sanitizeHeaderValue sender, bs "To: " ++ sanitizeHeaderValue recipient,
    bs "Subject: " ++ sanitizeHeaderValue subject, bs "Date: " ++ formatRFC1123Z now,
    bs "Message-ID: " ++ newMessageID stamp buf sender, bs "MIME-Version: 1.0",
    bs "Content-Type: text/plain; charset=\"utf-8\""]

section
variable (now stamp : Time) (buf sender recipient subject body : Bytes)

theorem buildMessage_eq : buildMessage now stamp buf sender recipient subject body =
    [13, 10].intercalate (headerLines now stamp buf sender recipient subject) ++ ([13, 10, 13, 10] ++ body) := by
  have hmime : bs "MIME-Version: 1.0\r\n" = bs "MIME-Version: 1.0" ++ [13, 10] := by decide
  have htype : bs "Content-Type: text/plain; charset=\"utf-8\"\r\n" =
      bs "Content-Type: text/plain; charset=\"utf-8\"" ++ [13, 10] := by decide
  simp [buildMessage, headerLines, List.intercalate, crlf_eq, hmime, htype]

theorem headerLines_named :
    List.Forall₂ (fun name line => name <+: line) headerNames (headerLines now stamp buf sender recipient subject) := by
  have hlit : ∀ (name : Bytes) {lit : Bytes} (v : Bytes), name <+: lit → name <+: lit ++ v := fun _ _ _ h =>
    h.trans (List.prefix_append _ _)
  refine .cons (hlit _ _ ?_) (.cons (hlit _ _ ?_) (.cons (hlit _ _ ?_) (.cons (hlit _ _ ?_) (.cons (hlit _ _ ?_)
    (.cons ?_ (.cons ?_ .nil))))))
  all_goals exact List.isPrefixOf_iff_prefix.mp (by decide)

theorem headerLines_oneLine (h : OneLine sender) :
    ∀ l ∈ headerLines now stamp buf sender recipient subject, l ≠ [] ∧ OneLine l := by
  have hlit : ∀ {lit v : Bytes}, lit ≠ [] → OneLine lit → OneLine v → lit ++ v ≠ [] ∧ OneLine (lit ++ v) :=
    fun hne hl hv => ⟨fun e => hne (List.append_eq_nil_iff.mp e).1, oneLine_append.mpr ⟨hl, hv⟩⟩
  simp only [headerLines, List.forall_mem_cons]
  refine ⟨hlit (by decide) (by decide) (oneLine_sanitizeHeaderValue _),
    hlit (by decide) (by decide) (oneLine_sanitizeHeaderValue _),
    hlit (by decide) (by decide) (oneLine_sanitizeHeaderValue _),
    hlit (by decide) (by decide) (oneLine_formatRFC1123Z _),
    hlit (by decide) (by decide) (oneLine_newMessageID _ _ h),
    by decide, by decide, fun _ h => absurd h List.not_mem_nil⟩

/-- **No header injection.** Up to the first empty line a message has its seven headers, each on one line, and
after it the body. -/
theorem buildMessage_headers (h : OneLine sender) : ∃ lines : List Bytes,
    cut (bs "\r\n\r\n") (buildMessage now stamp buf sender recipient subject body) =
        some ((bs "\r\n").intercalate lines, body) ∧
      List.Forall₂ (fun name line => name <+: line) headerNames lines ∧ ∀ line ∈ lines, OneLine line := by
  have hsep : bs "\r\n\r\n" = [13, 10, 13, 10] := by decide
  have hlines := headerLines_oneLine now stamp buf sender recipient subject h
  refine ⟨headerLines now stamp buf sender recipient subject, ?_,
    headerLines_named now stamp buf sender recipient subject, fun l hl => (hlines l hl).2⟩
  rw [hsep, crlf_eq, buildMessage_eq]
  exact cut_lines hlines body

end

theorem injected_subject_kept : ∃ lines : List Bytes,
    cut (bs "\r\n\r\n") (buildMessage 0 0 (List.replicate 12 0) (bs "alerts@logalot.test") (bs "a@b.test")
        (bs "x\r\nBcc: c@d.test\r\n\r\n") (bs "\r\n\r\nhello")) =
        some ((bs "\r\n").intercalate lines, bs "\r\n\r\nhello") ∧
      List.Forall₂ (fun name line => name <+: line) headerNames lines ∧ ∀ line ∈ lines, OneLine line :=
  buildMessage_headers _ _ _ _ _ _ _ (by decide)

end Logalot.Mail
