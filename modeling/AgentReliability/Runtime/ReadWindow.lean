import AgentReliability.Common.PrefixCode
import AgentReliability.Common.Utf8
import AgentReliability.Runtime.ReadTools
import Mathlib.Algebra.Ring.Nat
import Mathlib.Data.List.Sort
/-!
# What an answer of `read_file` shows

An answer shows a window of the lines of a file, under a header that names
the window unless it is the whole file. The text is then cut at
`READ_MAX_CHARS`, and the header does not tell. And the lines are those of
`str.splitlines`, which ends a line at a form feed or another boundary of
Unicode too, where the file has none. So an answer is what it seems if the
lines of its window are those of the file, and fit with their numbers.
-/

namespace AgentReliability

namespace Runtime

namespace ReadTools

open PythonText

/-! ## The window -/

/-- The first and the last line that are shown. -/
def windowOf (total : ℤ) (startLine endLine : Option ℤ) : ℤ × ℤ :=
  let first := max 1 (match startLine with
    | none => 1
    | some n => if n = 0 then 1 else n)
  (first, match endLine, startLine with
    | some n, _ => min total n
    | none, some _ => min total (first + readDefaultWindow - 1)
    | none, none => if total ≤ readDefaultWindow then total else readDefaultWindow)

/-- The numbers from one to the other. -/
def numbersFrom (first last : ℤ) : List ℤ :=
  (List.range (last + 1 - first).toNat).map fun i : ℕ => first + i

/-- The numbered lines of a window. -/
def windowText (lines : List String) (first last : ℤ) : String :=
  "\n".intercalate ((numbersFrom first last).map (numberedLine lines))

/-- The header of an answer. -/
def header (path : String) (total first last : ℤ) : String :=
  "[" ++ path ++ " 共 " ++ toString total ++ " 行，显示 " ++ toString first ++ "-" ++
    toString last ++ "；用 start_line/end_line 读取其他区间，建议先 search_code 定位行号]\n"

/-- What is left of a text that is cut. -/
def cut (text : String) : String := .ofList (text.toList.take readMaxChars)

/-- `shown`, by its parts. -/
theorem shown_eq (path : String) (lines : List String) (startLine endLine : Option ℤ) :
    shown path lines startLine endLine =
      if 1 < (windowOf lines.length startLine endLine).1 ∨
          (windowOf lines.length startLine endLine).2 < lines.length then
        header path lines.length (windowOf lines.length startLine endLine).1
            (windowOf lines.length startLine endLine).2 ++
          cut (windowText lines (windowOf lines.length startLine endLine).1
            (windowOf lines.length startLine endLine).2)
      else cut (windowText lines (windowOf lines.length startLine endLine).1
        (windowOf lines.length startLine endLine).2) := by
  cases startLine <;> cases endLine <;>
    simp only [shown, windowOf, header, cut, windowText, numbersFrom, bind_pure_comp,
      List.map_eq_map, List.map_map, Function.comp_def]

/-- A window starts in the file or behind it, and does not go beyond it. -/
theorem windowOf_within (total : ℤ) (startLine endLine : Option ℤ) :
    1 ≤ (windowOf total startLine endLine).1 ∧ (windowOf total startLine endLine).2 ≤ total := by
  refine ⟨le_max_left _ _, ?_⟩
  unfold windowOf
  cases endLine with
  | some n => exact min_le_left _ _
  | none =>
    cases startLine with
    | some n => exact min_le_left _ _
    | none =>
      show (if total ≤ readDefaultWindow then total else readDefaultWindow) ≤ total
      split_ifs <;> omega

/-! ## What an answer owes -/

/-- The lines of a file: what stands between its line feeds. -/
def fileLines (text : String) : List String := (TextLines.split '\n' text.toList).map .ofList

/-- The numbers of the lines of a file between two numbers. -/
def lineNumbers (lines : List String) (a b : ℤ) : List ℤ :=
  ((List.range lines.length).map fun i : ℕ => (i : ℤ) + 1).filter fun i => a ≤ i ∧ i ≤ b

/-- A text shows the lines between two numbers in full, each with its number,
and nothing else. -/
def ShowsLines (lines : List String) (a b : ℤ) (text : String) : Prop :=
  text = "\n".intercalate ((lineNumbers lines a b).map (numberedLine lines))

/-- **An answer never hides truncation**: it shows the whole file, or the
lines its header names. -/
structure NeverHides (path : String) (lines : List String) (answer : String) : Prop where
  whole : (∀ total a b body, answer ≠ header path total a b ++ body) →
    ShowsLines lines 1 lines.length answer
  named : ∀ total a b body, answer = header path total a b ++ body → ShowsLines lines a b body

theorem mem_numbersFrom {first last i : ℤ} :
    i ∈ numbersFrom first last ↔ first ≤ i ∧ i ≤ last := by
  simp only [numbersFrom, List.mem_map, List.mem_range]
  constructor
  · rintro ⟨k, hk, rfl⟩
    omega
  · rintro ⟨hfirst, hlast⟩
    exact ⟨(i - first).toNat, by omega, by omega⟩

theorem mem_lineNumbers {lines : List String} {a b i : ℤ} :
    i ∈ lineNumbers lines a b ↔ 1 ≤ i ∧ i ≤ lines.length ∧ a ≤ i ∧ i ≤ b := by
  simp only [lineNumbers, List.mem_filter, List.mem_map, List.mem_range, decide_eq_true_eq]
  constructor
  · rintro ⟨⟨k, hk, rfl⟩, ha, hb⟩
    omega
  · rintro ⟨hlo, hhi, ha, hb⟩
    exact ⟨⟨(i - 1).toNat, by omega, by omega⟩, ha, hb⟩

theorem pairwise_shifted (n : ℕ) (k : ℤ) :
    ((List.range n).map fun i : ℕ => k + i).Pairwise (· < ·) := by
  rw [List.pairwise_map]
  exact List.pairwise_lt_range.imp fun h => by omega

/-- **The window is what it says**: the lines of the file between its ends. -/
theorem lineNumbers_eq {lines : List String} {first last : ℤ} (hfirst : 1 ≤ first) :
    lineNumbers lines first last = numbersFrom first (min last lines.length) := by
  have hnumbers : (numbersFrom first (min last lines.length)).Pairwise (· < ·) := pairwise_shifted _ _
  have hlines : (lineNumbers lines first last).Pairwise (· < ·) := by
    refine List.Pairwise.filter _ ?_
    rw [List.pairwise_map]
    exact List.pairwise_lt_range.imp fun h => by omega
  refine List.Perm.eq_of_pairwise (fun a b _ _ hab hba => absurd hab (lt_asymm hba)) hlines hnumbers
    ((List.perm_ext_iff_of_nodup (hlines.imp ne_of_lt) (hnumbers.imp ne_of_lt)).mpr fun i => ?_)
  rw [mem_numbersFrom, mem_lineNumbers]
  omega

theorem length_numbersFrom (first last : ℤ) :
    (numbersFrom first last).length = (last + 1 - first).toNat := by
  rw [numbersFrom, List.length_map, List.length_range]

theorem numbersFrom_of_lt {first last : ℤ} (h : last < first) : numbersFrom first last = [] := by
  rw [← List.length_eq_zero_iff, length_numbersFrom]
  omega

/-! ## The lines of a file, and those of `str.splitlines` -/

/-- The lines of a window are, for `str.splitlines`, those of the file. -/
def SameLines (text : String) (first last : ℤ) : Prop :=
  ∀ i ∈ numbersFrom first last, (splitlines text)[(i - 1).toNat]? = (fileLines text)[(i - 1).toNat]?

theorem splitlinesFrom_eq {cs : List Char} (h : ∀ c ∈ cs, isLineBoundary c → c = '\n')
    (line : List Char) :
    splitlinesFrom line cs = (TextLines.splitFrom '\n' line cs).map .ofList := by
  induction cs generalizing line with
  | nil => cases line <;> rfl
  | cons c cs ih =>
    obtain ⟨hc, htail⟩ := List.forall_mem_cons.mp h
    by_cases hfeed : c = '\n'
    · subst hfeed
      rw [splitlinesFrom_boundary (by decide) (by simp), TextLines.splitFrom, if_pos rfl, ih htail]
      rfl
    · have hother : isLineBoundary c = false := by
        by_contra hboundary
        exact hfeed (hc (by simpa using hboundary))
      rw [splitlinesFrom_other hother, TextLines.splitFrom, if_neg hfeed, ih htail]

/-- **Without another line boundary** the two are the same. -/
theorem splitlines_eq_fileLines {text : String}
    (h : ∀ c ∈ text.toList, isLineBoundary c → c = '\n') : splitlines text = fileLines text :=
  splitlinesFrom_eq h []

/-- `str.splitlines` has a line for each line of the file. -/
theorem length_splitFrom_le (line line' cs : List Char) (hline : line ≠ [] → line' ≠ []) :
    (TextLines.splitFrom '\n' line' cs).length ≤
      (splitlinesFrom line cs).length + if line = [] ∧ line' ≠ [] then 1 else 0 := by
  induction line, cs using splitlinesFrom.induct generalizing line' with
  | case1 => cases line' <;> simp [TextLines.splitFrom, splitlinesFrom]
  | case2 line h =>
    obtain ⟨d, ds, rfl⟩ := List.exists_cons_of_ne_nil (h : line ≠ [])
    cases line' <;> simp [TextLines.splitFrom, splitlinesFrom]
  | case3 line cs ih =>
    have hrest := ih [] (by simp)
    rw [if_neg (by simp)] at hrest
    rw [TextLines.splitFrom, if_neg (by decide), TextLines.splitFrom, if_pos rfl, splitlinesFrom,
      List.length_cons, List.length_cons]
    omega
  | case4 line c cs h hc ih =>
    rw [splitlinesFrom, if_pos hc, List.length_cons]
    · by_cases hfeed : c = '\n'
      · have hrest := ih [] (by simp)
        rw [if_neg (by simp)] at hrest
        rw [TextLines.splitFrom, if_pos hfeed, List.length_cons]
        omega
      · have hrest := ih (c :: line') (by simp)
        rw [if_pos (by simp)] at hrest
        rw [TextLines.splitFrom, if_neg hfeed]
        omega
    · exact h
  | case5 line c cs h hc ih =>
    have hfeed : c ≠ '\n' := by
      rintro rfl
      exact absurd hc (by decide)
    have hrest := ih (c :: line') (by simp)
    rw [if_neg (by simp)] at hrest
    rw [TextLines.splitFrom, if_neg hfeed, splitlinesFrom, if_neg hc]
    · omega
    · exact h

theorem length_fileLines_le (text : String) :
    (fileLines text).length ≤ (splitlines text).length := by
  have hlength := length_splitFrom_le [] [] text.toList (by simp)
  rw [if_neg (by simp)] at hlength
  rw [fileLines, List.length_map]
  exact hlength

theorem feed_of_mem_splitlinesFrom {line cs : List Char} (hline : '\n' ∉ line) :
    ∀ part ∈ splitlinesFrom line cs, '\n' ∉ part.toList := by
  have hreverse {line : List Char} (hline : '\n' ∉ line) :
      '\n' ∉ (String.ofList line.reverse).toList := by
    rwa [String.toList_ofList, List.mem_reverse]
  induction line, cs using splitlinesFrom.induct with
  | case1 => exact fun part hpart => absurd hpart List.not_mem_nil
  | case2 line h =>
    rw [splitlinesFrom]
    · exact fun part hpart => List.mem_singleton.mp hpart ▸ hreverse hline
    · exact h
  | case3 line cs ih =>
    rw [splitlinesFrom]
    exact List.forall_mem_cons.mpr ⟨hreverse hline, ih List.not_mem_nil⟩
  | case4 line c cs h hc ih =>
    rw [splitlinesFrom, if_pos hc]
    · exact List.forall_mem_cons.mpr ⟨hreverse hline, ih List.not_mem_nil⟩
    · exact h
  | case5 line c cs h hc ih =>
    rw [splitlinesFrom, if_neg hc]
    · refine ih fun hmem => ?_
      rcases List.mem_cons.mp hmem with rfl | hmem
      · exact absurd hc (by decide)
      · exact hline hmem
    · exact h

theorem feed_of_mem_splitlines {text line : String} (h : line ∈ splitlines text) :
    '\n' ∉ line.toList := feed_of_mem_splitlinesFrom List.not_mem_nil line h

theorem feed_of_mem_fileLines {text line : String} (h : line ∈ fileLines text) :
    '\n' ∉ line.toList := by
  obtain ⟨chars, hchars, rfl⟩ := List.mem_map.mp h
  rw [String.toList_ofList]
  exact TextLines.not_mem_of_mem_split hchars

/-! ## A header is read off its answer -/

section

variable {i j : ℤ}

theorem toList_toString_of_nonneg (h : 0 ≤ i) : (toString i).toList = Nat.toDigits 10 i.toNat := by
  rw [Int.toString_eq_repr, Int.repr_eq_if, if_pos h]
  exact Nat.toList_repr

theorem toList_toString_of_neg (h : i < 0) :
    (toString i).toList = '-' :: Nat.toDigits 10 (-i).toNat := by
  rw [Int.toString_eq_repr, Int.repr_eq_if, if_neg (by omega), String.toList_append,
    Nat.toList_repr]
  rfl

theorem isDigit_of_mem_toDigits {n : ℕ} {c : Char} (hc : c ∈ Nat.toDigits 10 n) :
    c.isDigit = true := Nat.isDigit_of_mem_toDigits (by decide) (by decide) hc

/-- A number is written with digits and a sign. -/
theorem mark_of_mem_toString {c : Char} (hc : c ∈ (toString i).toList) :
    c.isDigit = true ∨ c = '-' := by
  rcases lt_or_ge i 0 with h | h
  · rw [toList_toString_of_neg h] at hc
    rcases List.mem_cons.mp hc with rfl | hc
    · exact .inr rfl
    · exact .inl (isDigit_of_mem_toDigits hc)
  · rw [toList_toString_of_nonneg h] at hc
    exact .inl (isDigit_of_mem_toDigits hc)

theorem toDigits_injective {m n : ℕ} (h : Nat.toDigits 10 m = Nat.toDigits 10 n) : m = n := by
  rw [← @Nat.ofDigitChars_ten_toDigits m, h, Nat.ofDigitChars_ten_toDigits]

/-- Digits do not start with a sign. -/
theorem toDigits_ne_sign {n : ℕ} {r r' : List Char} : Nat.toDigits 10 n ++ r ≠ '-' :: r' := by
  intro h
  cases hdigits : Nat.toDigits 10 n with
  | nil => exact absurd hdigits Nat.toDigits_ne_nil
  | cons c cs =>
    have hdigit : c.isDigit = true :=
      isDigit_of_mem_toDigits (n := n) (by rw [hdigits]; exact List.mem_cons_self)
    rw [hdigits, List.cons_append] at h
    rw [(List.cons.inj h).1] at hdigit
    exact absurd hdigit (by decide)

theorem toString_injective (h : (toString i).toList = (toString j).toList) : i = j := by
  rcases lt_or_ge i 0 with hi | hi <;> rcases lt_or_ge j 0 with hj | hj
  · rw [toList_toString_of_neg hi, toList_toString_of_neg hj] at h
    have := toDigits_injective (List.cons.inj h).2
    omega
  · rw [toList_toString_of_neg hi, toList_toString_of_nonneg hj,
      ← List.append_nil (Nat.toDigits 10 j.toNat)] at h
    exact absurd h.symm toDigits_ne_sign
  · rw [toList_toString_of_nonneg hi, toList_toString_of_neg hj,
      ← List.append_nil (Nat.toDigits 10 i.toNat)] at h
    exact absurd h toDigits_ne_sign
  · rw [toList_toString_of_nonneg hi, toList_toString_of_nonneg hj] at h
    have := toDigits_injective h
    omega

end

/-- What a number is followed by, if it is no mark of one. -/
theorem ends_number {t : List Char} {c : Char} {cs r : List Char} (ht : t = c :: cs)
    (hc : ¬ (c.isDigit = true ∨ c = '-')) :
    ∀ d ∈ (t ++ r).head?, ¬ (d.isDigit = true ∨ d = '-') := by
  subst ht
  intro d hd
  rw [← Option.some.inj hd]
  exact hc

/-- Two numbers with a hyphen between them, the first without a sign. -/
theorem hyphen_inj {i j i' j' : ℤ} (hi : 0 ≤ i)
    (h : (toString i).toList ++ '-' :: (toString j).toList =
      (toString i').toList ++ '-' :: (toString j').toList) : i = i' ∧ j = j' := by
  rw [toList_toString_of_nonneg hi] at h
  rcases lt_or_ge i' 0 with hi' | hi'
  · rw [toList_toString_of_neg hi'] at h
    exact absurd h toDigits_ne_sign
  · rw [toList_toString_of_nonneg hi'] at h
    have hends : ∀ r : List Char, ∀ d ∈ ('-' :: r).head?, ¬ d.isDigit = true := by
      intro r d hd
      rw [← Option.some.inj hd]
      decide
    obtain ⟨hfirst, hrest⟩ := PrefixCode.append_inj_of_marks
      (fun c hc => isDigit_of_mem_toDigits hc) (fun c hc => isDigit_of_mem_toDigits hc) (hends _)
      (hends _) h
    have hnat := toDigits_injective hfirst
    exact ⟨by omega, toString_injective (List.cons.inj hrest).2⟩

/-- **A header names one window**: an answer has no two headers. -/
theorem header_inj {path : String} {total first last total' first' last' : ℤ} {body body' : String}
    (hfirst : 0 ≤ first)
    (h : header path total first last ++ body = header path total' first' last' ++ body') :
    first = first' ∧ last = last' ∧ body = body' := by
  have hlist := congrArg String.toList h
  simp only [header, String.toList_append, List.append_assoc] at hlist
  have htotal := List.append_cancel_left (List.append_cancel_left (List.append_cancel_left hlist))
  obtain ⟨-, hrest⟩ := PrefixCode.append_inj_of_marks
    (fun c hc => mark_of_mem_toString hc) (fun c hc => mark_of_mem_toString hc)
    (ends_number (by rfl) (by decide)) (ends_number (by rfl) (by decide)) htotal
  -- the two ends of the window, up to the mark that follows them
  have hmarks : ∀ a b : ℤ, ∀ c ∈ (toString a).toList ++ '-' :: (toString b).toList,
      c.isDigit = true ∨ c = '-' := by
    intro a b c hc
    rcases List.mem_append.mp hc with hc | hc
    · exact mark_of_mem_toString hc
    · rcases List.mem_cons.mp hc with rfl | hc
      · exact .inr rfl
      · exact mark_of_mem_toString hc
  have hsplit : ∀ (a b : ℤ) (r : List Char), (toString a).toList ++ ("-".toList ++
      ((toString b).toList ++ r)) = ((toString a).toList ++ '-' :: (toString b).toList) ++ r := by
    intro a b r
    rw [List.append_assoc]
    rfl
  have hwindow := List.append_cancel_left hrest
  rw [hsplit, hsplit] at hwindow
  obtain ⟨hends, hbody⟩ := PrefixCode.append_inj_of_marks (hmarks _ _) (hmarks _ _)
    (ends_number (by rfl) (by decide)) (ends_number (by rfl) (by decide)) hwindow
  obtain ⟨hfirst, hlast⟩ := hyphen_inj hfirst hends
  exact ⟨hfirst, hlast, String.toList_injective (List.append_cancel_left hbody)⟩

/-! ## Numbered lines -/

/-- How wide the number of a line is printed. -/
def numberWidth (i : ℤ) : ℕ := max 6 (toString i).length

/-- How many characters the numbered lines of a window have, with the line
feeds between them. -/
def windowChars (lines : List String) (first last : ℤ) : ℕ :=
  ((numbersFrom first last).map fun i =>
    numberWidth i + 1 + (lines.getD (i - 1).toNat "").length).sum +
      ((numbersFrom first last).length - 1)

theorem length_intercalate (texts : List String) : ("\n".intercalate texts).length =
    (texts.map String.length).sum + (texts.length - 1) := by
  induction texts with
  | nil => rfl
  | cons text texts ih =>
    cases texts with
    | nil => simp
    | cons next texts =>
      rw [String.intercalate_cons_cons, String.length_append, String.length_append, ih]
      simp only [List.map_cons, List.sum_cons, List.length_cons]
      have hfeed : "\n".length = 1 := by decide
      omega

theorem length_windowText (lines : List String) (first last : ℤ) :
    (windowText lines first last).length = windowChars lines first last := by
  have hline : ∀ i, (numberedLine lines i).length =
      numberWidth i + 1 + (lines.getD (i - 1).toNat "").length := by
    intro i
    rw [numberedLine, String.length_append, String.length_append, String.length_ofList,
      List.length_leftpad]
    rfl
  rw [windowText, length_intercalate, List.map_map, List.length_map, windowChars]
  simp only [Function.comp_def, hline]

/-- A line starts with its number, which is not how a header starts. -/
theorem numberedLine_head (lines : List String) (i : ℤ) :
    ∃ c cs, (numberedLine lines i).toList = c :: cs ∧ c ≠ '[' := by
  have hmark : ∀ c ∈ List.leftpad 6 ' ' (toString i).toList, c ≠ '[' := by
    rintro c hc rfl
    rcases List.mem_append.mp hc with hc | hc
    · exact absurd (List.eq_of_mem_replicate hc) (by decide)
    · exact absurd (mark_of_mem_toString hc) (by decide)
  rw [numberedLine, String.toList_append, String.toList_append, String.toList_ofList]
  cases hpad : List.leftpad 6 ' ' (toString i).toList with
  | nil => exact ⟨'|', _, rfl, by decide⟩
  | cons c cs => exact ⟨c, _, rfl, hmark c (by rw [hpad]; exact List.mem_cons_self)⟩

/-- **No window reads as a header.** -/
theorem cut_ne_header (path : String) (lines : List String) (first last total a b : ℤ)
    (body : String) : cut (windowText lines first last) ≠ header path total a b ++ body := by
  intro h
  have hhead : (windowText lines first last).toList.head? = some '[' := by
    have hlist := congrArg (fun t => t.toList.head?) h
    simp only [cut, String.toList_ofList, header, String.toList_append, List.append_assoc] at hlist
    rw [List.head?_take, if_neg (by decide)] at hlist
    exact hlist
  rw [windowText, String.toList_intercalate] at hhead
  cases hnumbers : numbersFrom first last with
  | nil =>
    rw [hnumbers] at hhead
    exact absurd hhead (by simp)
  | cons i rest =>
    obtain ⟨c, cs, hc, hne⟩ := numberedLine_head lines i
    have hfeed : "\n".toList = ['\n'] := rfl
    rw [hnumbers, List.map_cons, List.map_cons, hfeed, PrefixCode.intercalate_cons, hc] at hhead
    exact hne (Option.some.inj hhead)

/-- A numbered line is one line. -/
theorem feed_of_numberedLine {lines : List String} (h : ∀ line ∈ lines, '\n' ∉ line.toList) (i : ℤ) :
    '\n' ∉ (numberedLine lines i).toList := by
  rw [numberedLine, String.toList_append, String.toList_append, String.toList_ofList]
  intro hmem
  rcases List.mem_append.mp hmem with hmem | hmem
  · rcases List.mem_append.mp hmem with hmem | hmem
    · rcases List.mem_append.mp hmem with hmem | hmem
      · exact absurd (List.eq_of_mem_replicate hmem) (by decide)
      · exact absurd (mark_of_mem_toString hmem) (by decide)
    · exact absurd hmem (by decide)
  · rw [List.getD_eq_getElem?_getD] at hmem
    cases hline : lines[(i - 1).toNat]? with
    | none =>
      rw [hline] at hmem
      exact absurd hmem (by decide)
    | some line =>
      rw [hline] at hmem
      exact h line (List.mem_of_getElem? hline) hmem

/-- **Lines that are joined can be told apart.** -/
theorem intercalate_inj {texts texts' : List String} (hne : texts ≠ []) (hne' : texts' ≠ [])
    (h : ∀ text ∈ texts, '\n' ∉ text.toList) (h' : ∀ text ∈ texts', '\n' ∉ text.toList)
    (heq : "\n".intercalate texts = "\n".intercalate texts') : texts = texts' := by
  have hsplit {texts : List String} (hne : texts ≠ []) (h : ∀ text ∈ texts, '\n' ∉ text.toList) :
      ("\n".intercalate texts).toList.splitOn '\n' = texts.map String.toList := by
    rw [String.toList_intercalate]
    refine List.splitOn_intercalate '\n' (fun chars hchars => ?_) (by simpa using hne)
    obtain ⟨text, htext, rfl⟩ := List.mem_map.mp hchars
    exact h text htext
  have hchars := hsplit hne h
  rw [heq, hsplit hne' h'] at hchars
  exact (List.map_injective_iff.mpr (fun _ _ h => String.toList_injective h) hchars).symm

/-! ## The answer -/

section

variable {text : String} {first last : ℤ}

/-- Where the lines are the same, so is the window. -/
theorem windowText_of_sameLines (hfirst : 1 ≤ first) (hlast : last ≤ (splitlines text).length)
    (hsame : SameLines text first last) :
    lineNumbers (fileLines text) first last = numbersFrom first last ∧
      windowText (splitlines text) first last = windowText (fileLines text) first last := by
  constructor
  · rw [lineNumbers_eq hfirst]
    rcases lt_or_ge last first with hempty | hsome
    · rw [numbersFrom_of_lt hempty, numbersFrom_of_lt (lt_of_le_of_lt (min_le_left _ _) hempty)]
    · -- the last line of the window is one of the file
      have hmem := hsame last (mem_numbersFrom.mpr ⟨hsome, le_refl _⟩)
      have hline : (last - 1).toNat < (splitlines text).length := by omega
      rw [List.getElem?_eq_getElem hline] at hmem
      obtain ⟨hin, -⟩ := List.getElem?_eq_some_iff.mp hmem.symm
      rw [min_eq_left (by omega)]
  · refine congrArg _ (List.map_congr_left fun i hi => ?_)
    rw [numberedLine, numberedLine, List.getD_eq_getElem?_getD, List.getD_eq_getElem?_getD, hsame i hi]

/-- **A window of lines of the file is shown exactly if it is not cut.** -/
theorem showsLines_cut_iff (hfirst : 1 ≤ first) (hlast : last ≤ (splitlines text).length)
    (hsame : SameLines text first last) :
    ShowsLines (fileLines text) first last (cut (windowText (splitlines text) first last)) ↔
      (windowText (splitlines text) first last).length ≤ readMaxChars := by
  obtain ⟨hnumbers, htext⟩ := windowText_of_sameLines hfirst hlast hsame
  unfold ShowsLines
  rw [hnumbers, htext]
  show String.ofList ((windowText (fileLines text) first last).toList.take readMaxChars) =
    windowText (fileLines text) first last ↔ _
  constructor
  · intro h
    have hlist := congrArg String.toList h
    rw [String.toList_ofList, List.take_eq_self_iff] at hlist
    exact hlist
  · intro h
    rw [List.take_of_length_le h, String.ofList_toList]

/-- **A window that fits is shown only if its lines are those of the file.** -/
theorem sameLines_of_showsLines (hfirst : 1 ≤ first) (hlast : last ≤ (splitlines text).length)
    (hfits : (windowText (splitlines text) first last).length ≤ readMaxChars)
    (h : ShowsLines (fileLines text) first last (cut (windowText (splitlines text) first last))) :
    SameLines text first last := by
  have hcut : cut (windowText (splitlines text) first last) =
      windowText (splitlines text) first last := by
    rw [cut, List.take_of_length_le hfits, String.ofList_toList]
  unfold ShowsLines at h
  rw [hcut, lineNumbers_eq hfirst] at h
  rcases lt_or_ge last first with hempty | hsome
  · intro i hi
    rw [numbersFrom_of_lt hempty] at hi
    exact absurd hi List.not_mem_nil
  -- A line that is numbered is not empty, so what is shown is of some line of the file.
  have hnumbers : numbersFrom first last ≠ [] :=
    List.ne_nil_of_mem (mem_numbersFrom.mpr ⟨le_refl _, hsome⟩)
  have hnumbers' : numbersFrom first (min last (fileLines text).length) ≠ [] := by
    intro hnone
    obtain ⟨i, rest, hrest⟩ := List.exists_cons_of_ne_nil hnumbers
    obtain ⟨c, cs, hc, -⟩ := numberedLine_head (splitlines text) i
    have hchars := congrArg String.toList h
    have hfeed : "\n".toList = ['\n'] := rfl
    rw [windowText, hrest, hnone, String.toList_intercalate, List.map_cons, List.map_cons, hfeed,
      PrefixCode.intercalate_cons, hc] at hchars
    exact absurd hchars (by simp)
  -- No line has a line feed, so the numbered lines are the same ones, one by one.
  have hlists := intercalate_inj (by simpa using hnumbers) (by simpa using hnumbers')
    (fun line hline => ?_) (fun line hline => ?_) h
  · have hlength := congrArg List.length hlists
    rw [List.length_map, List.length_map, length_numbersFrom, length_numbersFrom] at hlength
    rw [min_eq_left (by omega)] at hlists
    intro i hi
    obtain ⟨hlo, hhi⟩ := mem_numbersFrom.mp hi
    have hline := congrArg String.toList (List.map_inj_left.mp hlists i hi)
    simp only [numberedLine, String.toList_append, List.append_assoc] at hline
    have hsame := String.toList_injective
      (List.append_cancel_left (List.append_cancel_left hline))
    have hleft : (i - 1).toNat < (splitlines text).length := by omega
    have hright : (i - 1).toNat < (fileLines text).length := by omega
    rw [List.getD_eq_getElem?_getD, List.getD_eq_getElem?_getD, List.getElem?_eq_getElem hleft,
      List.getElem?_eq_getElem hright] at hsame
    rw [List.getElem?_eq_getElem hleft, List.getElem?_eq_getElem hright]
    exact congrArg some hsame
  · obtain ⟨i, -, rfl⟩ := List.mem_map.mp hline
    exact feed_of_numberedLine (fun _ => feed_of_mem_splitlines) i
  · obtain ⟨i, -, rfl⟩ := List.mem_map.mp hline
    exact feed_of_numberedLine (fun _ => feed_of_mem_fileLines) i

end

theorem neverHides_shown_iff (path text : String) (startLine endLine : Option ℤ) :
    NeverHides path (fileLines text) (shown path (splitlines text) startLine endLine) ↔
      ShowsLines (fileLines text) (windowOf (splitlines text).length startLine endLine).1
        (windowOf (splitlines text).length startLine endLine).2
        (cut (windowText (splitlines text) (windowOf (splitlines text).length startLine endLine).1
          (windowOf (splitlines text).length startLine endLine).2)) := by
  obtain ⟨hfirst, hlast⟩ := windowOf_within (splitlines text).length startLine endLine
  rw [shown_eq]
  generalize (windowOf (splitlines text).length startLine endLine).1 = first at *
  generalize (windowOf (splitlines text).length startLine endLine).2 = last at *
  split
  · -- the header names the window
    constructor
    · intro h
      exact h.named _ _ _ _ rfl
    · refine fun h => ⟨fun hnone => absurd rfl (hnone _ _ _ _), ?_⟩
      intro total a b body heq
      obtain ⟨rfl, rfl, rfl⟩ := header_inj (by omega) heq
      exact h
  · next hwhole =>
    obtain rfl : first = 1 := by omega
    obtain rfl : last = (splitlines text).length := by omega
    have hlength := length_fileLines_le text
    have hnumbers : lineNumbers (fileLines text) 1 (splitlines text).length =
        lineNumbers (fileLines text) 1 (fileLines text).length := by
      rw [lineNumbers_eq (le_refl 1), lineNumbers_eq (le_refl 1), min_self,
        min_eq_right (by exact_mod_cast hlength)]
    have hall : ∀ answer, ShowsLines (fileLines text) 1 (splitlines text).length answer ↔
        ShowsLines (fileLines text) 1 (fileLines text).length answer := by
      intro answer
      rw [ShowsLines, ShowsLines, hnumbers]
    rw [hall]
    constructor
    · intro h
      exact h.whole fun total a b body => cut_ne_header path _ 1 _ total a b body
    · refine fun h => ⟨fun _ => h, ?_⟩
      intro total a b body heq
      exact absurd heq (cut_ne_header path _ 1 _ total a b body)

/-- The path names a file of the workspace, with this text. -/
structure NamesFile (w : ToolPaths) (t : FileTree) (contents : Contents) (path text : String) :
    Prop where
  outsideGit : ".git" ∉ (PurePath.parse path).names
  found : ∃ workdir target location, t.realpath w.workdir.names = some workdir ∧
    t.realpath (w.workdir.join (.parse path)).names = some target ∧ workdir <+: target ∧
      t.openedFile target = some location ∧ contents location = some text

theorem readFile_of_namesFile {w : ToolPaths} {t : FileTree} {contents : Contents}
    {path text : String} (h : NamesFile w t contents path text) (startLine endLine : Option ℤ) :
    readFile w t contents path startLine endLine =
      .ok (shown path (splitlines text) startLine endLine) := by
  obtain ⟨hgit, workdir, target, location, hworkdir, htarget, hin, hopened, htext⟩ := h
  unfold readFile
  rw [resolve_eq_ok.mpr htarget, resolve_eq_ok.mpr hworkdir]
  show (if _ then _ else _) = _
  rw [if_neg (by simp [hin, hgit]), hopened]
  simp only [htext]

/-- What an answer to this request never hides. -/
def ReadNeverHides (w : ToolPaths) (t : FileTree) (contents : Contents) (path text : String)
    (startLine endLine : Option ℤ) : Prop :=
  ∃ answer, readFile w t contents path startLine endLine = .ok answer ∧
    NeverHides path (fileLines text) answer

/-- The window that is asked for. -/
def askedWindow (text : String) (startLine endLine : Option ℤ) : ℤ × ℤ :=
  windowOf (splitlines text).length startLine endLine

/-- The lines of the window that is asked for are those of the file. -/
def AsksSameLines (text : String) (startLine endLine : Option ℤ) : Prop :=
  SameLines text (askedWindow text startLine endLine).1 (askedWindow text startLine endLine).2

/-- The numbered lines of the window that is asked for fit. -/
def AsksFit (text : String) (startLine endLine : Option ℤ) : Prop :=
  windowChars (splitlines text) (askedWindow text startLine endLine).1
    (askedWindow text startLine endLine).2 ≤ readMaxChars

instance (text : String) (startLine endLine : Option ℤ) :
    Decidable (AsksFit text startLine endLine) := by
  unfold AsksFit
  infer_instance

/-- **`read_file` never hides truncation where the lines of its window are
those of the file, and fit.** Where only one of the two holds, it hides
something. -/
theorem read_neverHides_iff {w : ToolPaths} {t : FileTree} {contents : Contents}
    {path text : String} (h : NamesFile w t contents path text) (startLine endLine : Option ℤ) :
    (AsksSameLines text startLine endLine ∧ AsksFit text startLine endLine →
      ReadNeverHides w t contents path text startLine endLine) ∧
    (AsksSameLines text startLine endLine ∨ AsksFit text startLine endLine →
      ReadNeverHides w t contents path text startLine endLine →
      AsksSameLines text startLine endLine ∧ AsksFit text startLine endLine) := by
  have hanswer : ReadNeverHides w t contents path text startLine endLine ↔
      NeverHides path (fileLines text) (shown path (splitlines text) startLine endLine) := by
    unfold ReadNeverHides
    rw [readFile_of_namesFile h]
    simp
  obtain ⟨hfirst, hlast⟩ := windowOf_within (splitlines text).length startLine endLine
  have hfits := length_windowText (splitlines text) (askedWindow text startLine endLine).1
    (askedWindow text startLine endLine).2
  rw [hanswer, neverHides_shown_iff, AsksFit, ← hfits]
  refine ⟨fun ⟨hsame, hfit⟩ => (showsLines_cut_iff hfirst hlast hsame).mpr hfit, ?_⟩
  rintro (hsame | hfit) hshows
  · exact ⟨hsame, (showsLines_cut_iff hfirst hlast hsame).mp hshows⟩
  · exact ⟨sameLines_of_showsLines hfirst hlast hfit hshows, hfit⟩

/-- Without another line boundary the lines are those of the file. -/
theorem asksSameLines {text : String} (h : ∀ c ∈ text.toList, isLineBoundary c → c = '\n')
    (startLine endLine : Option ℤ) : AsksSameLines text startLine endLine := by
  intro i _
  rw [splitlines_eq_fileLines h]

/-- A workspace with one file. -/
def oneFile : FileTree where
  entries := [(["repo"], .dir), (["repo", "a.py"], .file)]
  parents := by decide
  named := by decide

theorem oneFile_namesFile (text : String) :
    NamesFile ⟨.parse "/repo", ""⟩ oneFile (fun _ => some text) "a.py" text where
  outsideGit := by decide
  found := ⟨["repo"], ["repo", "a.py"], ["repo", "a.py"], by decide, by decide, by decide,
    by decide, rfl⟩

/-- A file of two short lines. -/
theorem shortLines_neverHides : ReadNeverHides ⟨.parse "/repo", ""⟩ oneFile
    (fun _ => some "a = 1\nb = 2\n") "a.py" "a = 1\nb = 2\n" none none := by
  refine (read_neverHides_iff (oneFile_namesFile _) none none).1 ⟨asksSameLines ?_ _ _, by decide⟩
  exact List.forall_iff_forall_mem.mp (by decide)

/-- **The end of a long line is not shown**, and no header tells. -/
theorem longLine_hides {line : String} (hline : ∀ c ∈ line.toList, isLineBoundary c = false)
    (hlong : readMaxChars ≤ line.length) : ¬ ∀ w t contents path text startLine endLine,
      NamesFile w t contents path text →
        ReadNeverHides w t contents path text startLine endLine := by
  intro hall
  let text := String.ofList ([line].flatMap fun line => line.toList ++ ['\n'])
  have hlines : splitlines text = [line] :=
    splitlines_join fun other hother => by rwa [List.mem_singleton.mp hother]
  have hfeeds : ∀ c ∈ text.toList, isLineBoundary c → c = '\n' := by
    intro c hc hboundary
    rw [String.toList_ofList, List.flatMap_singleton] at hc
    rcases List.mem_append.mp hc with hc | hc
    · exact absurd hboundary (by simp [hline c hc])
    · exact List.mem_singleton.mp hc
  have hnamed := oneFile_namesFile text
  obtain ⟨-, hfit⟩ := (read_neverHides_iff hnamed none none).2
    (.inl (asksSameLines hfeeds _ _)) (hall _ _ _ _ _ none none hnamed)
  rw [AsksFit, askedWindow, hlines] at hfit
  have hchars : windowChars [line] 1 1 = 6 + 1 + line.length := rfl
  have hfits : windowChars [line] 1 1 ≤ readMaxChars := hfit
  omega

/-- A line of as many characters as an answer may have. -/
theorem fiftyThousand_hidden : ¬ ∀ w t contents path text startLine endLine,
    NamesFile w t contents path text →
      ReadNeverHides w t contents path text startLine endLine := by
  have hlength : (String.ofList (List.replicate readMaxChars 'a')).length = readMaxChars := by
    rw [String.length_ofList, List.length_replicate]
  refine longLine_hides (fun c hc => ?_) hlength.ge
  rw [String.toList_ofList] at hc
  rw [List.eq_of_mem_replicate hc]
  decide

end ReadTools

end Runtime

end AgentReliability
