import AgentReliability.Common.Masking
import Mathlib.Data.List.TakeWhile
/-!
# Patterns of a text

Regular expressions as a backtracking matcher reads them: `ways` lists the
ways a pattern matches at the head of a text, the preferred one first, each
with what its groups captured and what it leaves of the text. The repeats are
of single symbols, and greedy.

What a way says of the text is read off by one lemma for each form of a pattern
(`mem_seq`, ..), and the preferred way is found by another (`head?_seq`, ..). A
pattern that does not cross the ends of lines matches in a text what it matches
in its lines (`searchLines_eq`).
-/

namespace AgentReliability

/-- A pattern. -/
inductive Pattern (α : Type) where
  | lit (text : List α)
  /-- Symbols of a class, so many at least. -/
  | many (least : ℕ) (mem : α → Bool)
  /-- What is matched is captured. -/
  | group (p : Pattern α)
  | opt (p : Pattern α)
  | seq (p q : Pattern α)
  | alt (p q : Pattern α)
  /-- `$`: the text or the line ends here. -/
  | lineEnd (isEnd : α → Bool)

namespace Pattern

variable {α : Type}

/-- What the groups captured. A group that took no part has captured nothing. -/
abbrev Captures (α : Type) := List (Option (List α))

def groups : Pattern α → ℕ
  | lit _ | many _ _ | lineEnd _ => 0
  | group p => p.groups + 1
  | opt p => p.groups
  | seq p q | alt p q => p.groups + q.groups

/-- What is left after some symbols of a class, the longest repeat first. -/
def repeats (mem : α → Bool) : ℕ → List α → List (List α)
  | least, [] => if least = 0 then [[]] else []
  | least, c :: cs =>
    (if mem c then repeats mem (least - 1) cs else []) ++ if least = 0 then [c :: cs] else []

section

variable [DecidableEq α]

def ways : Pattern α → List α → List (Captures α × List α)
  | lit text, cs => if text <+: cs then [([], cs.drop text.length)] else []
  | many least mem, cs => (repeats mem least cs).map fun rest => ([], rest)
  | group p, cs =>
    (p.ways cs).map fun m => (some (cs.take (cs.length - m.2.length)) :: m.1, m.2)
  | opt p, cs => p.ways cs ++ [(.replicate p.groups none, cs)]
  | seq p q, cs => (p.ways cs).flatMap fun m => (q.ways m.2).map fun m' => (m.1 ++ m'.1, m'.2)
  | alt p q, cs =>
    (p.ways cs).map (fun m => (m.1 ++ .replicate q.groups none, m.2)) ++
      (q.ways cs).map fun m => (.replicate p.groups none ++ m.1, m.2)
  | lineEnd _, [] => [([], [])]
  | lineEnd isEnd, c :: cs => if isEnd c then [([], c :: cs)] else []

/-- The preferred way at the head of a text. -/
def first (p : Pattern α) (cs : List α) : Option (Captures α) := (p.ways cs).head?.map (·.1)

/-- The first match at the start of a line, from a place that is one or not. -/
def searchLines (isEnd : α → Bool) (p : Pattern α) : Bool → List α → Option (Captures α)
  | start, [] => if start then p.first [] else none
  | start, c :: cs =>
    (if start then p.first (c :: cs) else none).or (searchLines isEnd p (isEnd c) cs)

end

/-! ## One equation for each form -/

theorem repeats_nil (mem : α → Bool) (least : ℕ) :
    repeats mem least [] = if least = 0 then [[]] else [] := rfl

theorem repeats_cons (mem : α → Bool) (least : ℕ) (c : α) (cs : List α) :
    repeats mem least (c :: cs) =
      (if mem c then repeats mem (least - 1) cs else []) ++ if least = 0 then [c :: cs] else [] :=
  rfl

section

variable [DecidableEq α]

theorem ways_lit (text cs : List α) :
    (lit text).ways cs = if text <+: cs then [([], cs.drop text.length)] else [] := rfl

theorem ways_many (least : ℕ) (mem : α → Bool) (cs : List α) :
    (many least mem).ways cs = (repeats mem least cs).map fun rest => ([], rest) := rfl

theorem ways_group (p : Pattern α) (cs : List α) :
    (group p).ways cs =
      (p.ways cs).map fun m => (some (cs.take (cs.length - m.2.length)) :: m.1, m.2) := rfl

theorem ways_opt (p : Pattern α) (cs : List α) :
    (opt p).ways cs = p.ways cs ++ [(.replicate p.groups none, cs)] := rfl

theorem ways_seq (p q : Pattern α) (cs : List α) :
    (seq p q).ways cs =
      (p.ways cs).flatMap fun m => (q.ways m.2).map fun m' => (m.1 ++ m'.1, m'.2) := rfl

theorem ways_alt (p q : Pattern α) (cs : List α) :
    (alt p q).ways cs =
      (p.ways cs).map (fun m => (m.1 ++ .replicate q.groups none, m.2)) ++
        (q.ways cs).map fun m => (.replicate p.groups none ++ m.1, m.2) := rfl

theorem ways_lineEnd_nil (isEnd : α → Bool) : (lineEnd isEnd).ways [] = [([], [])] := rfl

theorem ways_lineEnd_cons (isEnd : α → Bool) (c : α) (cs : List α) :
    (lineEnd isEnd).ways (c :: cs) = if isEnd c then [([], c :: cs)] else [] := rfl

theorem searchLines_nil (isEnd : α → Bool) (p : Pattern α) (start : Bool) :
    searchLines isEnd p start [] = if start then p.first [] else none := rfl

theorem searchLines_cons (isEnd : α → Bool) (p : Pattern α) (start : Bool) (c : α) (cs : List α) :
    searchLines isEnd p start (c :: cs) =
      (if start then p.first (c :: cs) else none).or (searchLines isEnd p (isEnd c) cs) := rfl

end

/-! ## What is left is the end of the text -/

theorem mem_repeats {mem : α → Bool} {least : ℕ} {cs rest : List α}
    (h : rest ∈ repeats mem least cs) :
    ∃ as, cs = as ++ rest ∧ (∀ c ∈ as, mem c = true) ∧ least ≤ as.length := by
  induction cs generalizing least with
  | nil =>
    rw [repeats_nil] at h
    split at h
    · rw [List.mem_singleton.mp h]
      exact ⟨[], rfl, by simp, by simp_all⟩
    · exact absurd h List.not_mem_nil
  | cons c cs ih =>
    rw [repeats_cons, List.mem_append] at h
    rcases h with h | h
    · split at h
      · rename_i hc
        obtain ⟨as, rfl, has, hle⟩ := ih h
        refine ⟨c :: as, rfl, List.forall_mem_cons.mpr ⟨hc, has⟩, ?_⟩
        rw [List.length_cons]
        omega
      · exact absurd h List.not_mem_nil
    · split at h
      · rw [List.mem_singleton.mp h]
        exact ⟨[], rfl, by simp, by simp_all⟩
      · exact absurd h List.not_mem_nil

variable [DecidableEq α]

theorem suffix_of_mem_ways {p : Pattern α} {cs : List α} {m : Captures α × List α}
    (h : m ∈ p.ways cs) : m.2 <:+ cs := by
  induction p generalizing cs m with
  | lit text =>
    rw [ways_lit] at h
    split at h
    · rw [List.mem_singleton.mp h]
      exact List.drop_suffix _ _
    · exact absurd h List.not_mem_nil
  | many least mem =>
    obtain ⟨rest, hrest, rfl⟩ := List.mem_map.mp h
    obtain ⟨as, rfl, -, -⟩ := mem_repeats hrest
    exact List.suffix_append as rest
  | group p ih =>
    obtain ⟨m', hm', rfl⟩ := List.mem_map.mp h
    have hsuffix := ih hm'
    exact hsuffix
  | opt p ih =>
    rcases List.mem_append.mp h with h | h
    · exact ih h
    · rw [List.mem_singleton.mp h]
  | seq p q ihp ihq =>
    obtain ⟨m₁, hm₁, h⟩ := List.mem_flatMap.mp h
    obtain ⟨m₂, hm₂, rfl⟩ := List.mem_map.mp h
    exact (ihq hm₂).trans (ihp hm₁)
  | alt p q ihp ihq =>
    rcases List.mem_append.mp h with h | h
    · obtain ⟨m', hm', rfl⟩ := List.mem_map.mp h
      have hsuffix := ihp hm'
      exact hsuffix
    · obtain ⟨m', hm', rfl⟩ := List.mem_map.mp h
      have hsuffix := ihq hm'
      exact hsuffix
  | lineEnd isEnd =>
    cases cs with
    | nil => rw [List.mem_singleton.mp h]
    | cons c cs =>
      rw [ways_lineEnd_cons] at h
      split at h
      · rw [List.mem_singleton.mp h]
      · exact absurd h List.not_mem_nil

/-! ## What a way says of the text -/

section Inversion

variable {cs rest text : List α} {caps : Captures α} {p q : Pattern α}

theorem mem_lit (h : (caps, rest) ∈ (lit text).ways cs) : caps = [] ∧ cs = text ++ rest := by
  rw [ways_lit] at h
  split at h
  · rename_i htext
    obtain ⟨rfl, rfl⟩ := Prod.mk.inj (List.mem_singleton.mp h)
    obtain ⟨more, rfl⟩ := htext
    exact ⟨rfl, by rw [List.drop_left]⟩
  · exact absurd h List.not_mem_nil

theorem mem_many {least : ℕ} {mem : α → Bool} (h : (caps, rest) ∈ (many least mem).ways cs) :
    caps = [] ∧ ∃ as, cs = as ++ rest ∧ (∀ c ∈ as, mem c = true) ∧ least ≤ as.length := by
  obtain ⟨rest', hrest, heq⟩ := List.mem_map.mp h
  obtain ⟨rfl, rfl⟩ := Prod.mk.inj heq
  exact ⟨rfl, mem_repeats hrest⟩

theorem mem_group (h : (caps, rest) ∈ (group p).ways cs) :
    ∃ caps' as, (caps', rest) ∈ p.ways cs ∧ cs = as ++ rest ∧ caps = some as :: caps' := by
  obtain ⟨⟨caps', rest'⟩, hm, heq⟩ := List.mem_map.mp h
  obtain ⟨rfl, rfl⟩ := Prod.mk.inj heq
  obtain ⟨as, rfl⟩ := suffix_of_mem_ways hm
  refine ⟨caps', as, hm, rfl, ?_⟩
  rw [List.length_append, Nat.add_sub_cancel, List.take_left]

theorem mem_opt (h : (caps, rest) ∈ (opt p).ways cs) :
    (caps, rest) ∈ p.ways cs ∨ caps = .replicate p.groups none ∧ rest = cs := by
  rcases List.mem_append.mp h with h | h
  · exact .inl h
  · exact .inr (Prod.mk.inj (List.mem_singleton.mp h))

theorem mem_seq (h : (caps, rest) ∈ (seq p q).ways cs) :
    ∃ caps₁ caps₂ middle, (caps₁, middle) ∈ p.ways cs ∧ (caps₂, rest) ∈ q.ways middle ∧
      caps = caps₁ ++ caps₂ := by
  obtain ⟨⟨caps₁, middle⟩, hp, h⟩ := List.mem_flatMap.mp h
  obtain ⟨⟨caps₂, rest'⟩, hq, heq⟩ := List.mem_map.mp h
  obtain ⟨rfl, rfl⟩ := Prod.mk.inj heq
  exact ⟨caps₁, caps₂, middle, hp, hq, rfl⟩

theorem mem_lineEnd {isEnd : α → Bool} (h : (caps, rest) ∈ (lineEnd isEnd).ways cs) :
    caps = [] ∧ rest = cs ∧ ∀ c ∈ cs.head?, isEnd c = true := by
  cases cs with
  | nil =>
    obtain ⟨rfl, rfl⟩ := Prod.mk.inj (List.mem_singleton.mp h)
    exact ⟨rfl, rfl, by simp⟩
  | cons c cs =>
    rw [ways_lineEnd_cons] at h
    split at h
    · rename_i hc
      obtain ⟨rfl, rfl⟩ := Prod.mk.inj (List.mem_singleton.mp h)
      exact ⟨rfl, rfl, by simpa using hc⟩
    · exact absurd h List.not_mem_nil

end Inversion

/-! ## The preferred way -/

section Preferred

variable {cs rest text : List α} {caps caps' : Captures α} {p q : Pattern α}

theorem head?_lit (text rest : List α) :
    ((lit text).ways (text ++ rest)).head? = some ([], rest) := by
  rw [ways_lit, if_pos (List.prefix_append _ _), List.drop_left]
  rfl

/-- The preferred repeat goes as far as it can. -/
theorem head?_many {least : ℕ} {mem : α → Bool} {as : List α} (has : ∀ c ∈ as, mem c = true)
    (hleast : least ≤ as.length) (hrest : ∀ c ∈ rest.head?, mem c = false) :
    ((many least mem).ways (as ++ rest)).head? = some ([], rest) := by
  rw [ways_many, List.head?_map]
  suffices h : (repeats mem least (as ++ rest)).head? = some rest by rw [h]; rfl
  induction as generalizing least with
  | nil =>
    obtain rfl : least = 0 := by simpa using hleast
    cases rest with
    | nil => rfl
    | cons c rest =>
      have hc : mem c = false := hrest c rfl
      simp [repeats_cons, hc]
  | cons c as ih =>
    obtain ⟨hc, has⟩ := List.forall_mem_cons.mp has
    rw [List.length_cons] at hleast
    rw [List.cons_append, repeats_cons, if_pos hc, List.head?_append, ih has (by omega)]
    rfl

theorem head?_group {as : List α} (h : (p.ways (as ++ rest)).head? = some (caps, rest)) :
    ((group p).ways (as ++ rest)).head? = some (some as :: caps, rest) := by
  rw [ways_group, List.head?_map, h, Option.map_some, List.length_append, Nat.add_sub_cancel,
    List.take_left]

theorem head?_opt (h : (p.ways cs).head? = some (caps, rest)) :
    ((opt p).ways cs).head? = some (caps, rest) := by
  rw [ways_opt, List.head?_append, h]
  rfl

theorem head?_opt_none (h : p.ways cs = []) :
    ((opt p).ways cs).head? = some (.replicate p.groups none, cs) := by
  rw [ways_opt, h]
  rfl

/-- A preferred way that the rest can go on from is preferred. -/
theorem head?_seq {middle : List α} (hp : (p.ways cs).head? = some (caps, middle))
    (hq : (q.ways middle).head? = some (caps', rest)) :
    ((seq p q).ways cs).head? = some (caps ++ caps', rest) := by
  obtain ⟨more, hmore⟩ := List.head?_eq_some_iff.mp hp
  rw [ways_seq, hmore, List.flatMap_cons, List.head?_append, List.head?_map, hq]
  rfl

theorem head?_alt_left (h : (p.ways cs).head? = some (caps, rest)) :
    ((alt p q).ways cs).head? = some (caps ++ .replicate q.groups none, rest) := by
  rw [ways_alt, List.head?_append, List.head?_map, h]
  rfl

theorem head?_alt_right (hp : p.ways cs = []) (hq : (q.ways cs).head? = some (caps, rest)) :
    ((alt p q).ways cs).head? = some (.replicate p.groups none ++ caps, rest) := by
  rw [ways_alt, hp, List.map_nil, List.nil_append, List.head?_map, hq]
  rfl

theorem first_of_head? (h : (p.ways cs).head? = some (caps, rest)) : p.first cs = some caps := by
  rw [first, h]
  rfl

/-- What was captured first was captured in some way. -/
theorem mem_of_first (h : p.first cs = some caps) : ∃ rest, (caps, rest) ∈ p.ways cs := by
  obtain ⟨⟨caps', rest⟩, hm, rfl⟩ := Option.map_eq_some_iff.mp h
  exact ⟨rest, List.mem_of_head? hm⟩

end Preferred

/-! ## Patterns of a line -/

/-- No match of the pattern goes beyond a line. -/
def Inline (isEnd : α → Bool) : Pattern α → Prop
  | lit text => ∀ c ∈ text, isEnd c = false
  | many _ mem => ∀ c, mem c = true → isEnd c = false
  | group p | opt p => p.Inline isEnd
  | seq p q | alt p q => p.Inline isEnd ∧ q.Inline isEnd
  | lineEnd isEnd' => isEnd' = isEnd

variable {isEnd : α → Bool}

omit [DecidableEq α] in
theorem repeats_append {mem : α → Bool} (hmem : ∀ c, mem c = true → isEnd c = false) {t : α}
    (ht : isEnd t = true) (least : ℕ) (line rest : List α) :
    repeats mem least (line ++ t :: rest) =
      (repeats mem least line).map (· ++ t :: rest) := by
  induction line generalizing least with
  | nil =>
    have hstop : mem t = false := by
      cases h : mem t with
      | false => rfl
      | true => exact absurd (hmem t h) (by simp [ht])
    by_cases hleast : least = 0 <;> simp [repeats_nil, repeats_cons, hstop, hleast]
  | cons c line ih =>
    rw [List.cons_append, repeats_cons, repeats_cons, List.map_append, ih]
    congr 1
    · split <;> rfl
    · split <;> rfl

/-- **A match at the head of a line stays the same match** when more lines
follow. -/
theorem ways_append {p : Pattern α} (hp : p.Inline isEnd) {t : α} (ht : isEnd t = true)
    {line : List α} (hline : ∀ c ∈ line, isEnd c = false) (rest : List α) :
    p.ways (line ++ t :: rest) = (p.ways line).map fun m => (m.1, m.2 ++ t :: rest) := by
  induction p generalizing line with
  | lit text =>
    have hnot : t ∉ text := fun h => absurd (hp t h) (by simp [ht])
    rw [ways_lit, ways_lit]
    by_cases htext : text <+: line
    · rw [if_pos htext, if_pos (htext.trans (List.prefix_append _ _)), List.map_singleton,
        List.drop_append_of_le_length htext.length_le]
    · rw [if_neg htext, if_neg fun h => htext (Masking.prefix_of_prefix_append_cons hnot h)]
      rfl
  | many least mem =>
    rw [ways_many, ways_many, repeats_append hp ht, List.map_map, List.map_map]
    rfl
  | group p ih =>
    rw [ways_group, ways_group, ih hp hline, List.map_map, List.map_map]
    refine List.map_congr_left fun m hm => ?_
    have hle := (suffix_of_mem_ways hm).length_le
    have hlength : (line ++ t :: rest).length - (m.2 ++ t :: rest).length =
        line.length - m.2.length := by
      rw [List.length_append, List.length_append]
      omega
    simp only [Function.comp_apply, hlength]
    rw [List.take_append_of_le_length (by omega)]
  | opt p ih =>
    rw [ways_opt, ways_opt, ih hp hline, List.map_append, List.map_singleton]
  | seq p q ihp ihq =>
    rw [ways_seq, ways_seq, ihp hp.1 hline, List.flatMap_map, List.map_flatMap]
    refine List.flatMap_congr fun m hm => ?_
    have hrest : ∀ c ∈ m.2, isEnd c = false :=
      fun c hc => hline c ((suffix_of_mem_ways hm).subset hc)
    rw [ihq hp.2 hrest, List.map_map, List.map_map]
    rfl
  | alt p q ihp ihq =>
    rw [ways_alt, ways_alt, ihp hp.1 hline, ihq hp.2 hline, List.map_append, List.map_map, List.map_map,
      List.map_map, List.map_map]
    rfl
  | lineEnd isEnd' =>
    obtain rfl : isEnd' = isEnd := hp
    cases line with
    | nil => simp [ways_lineEnd_nil, ways_lineEnd_cons, ht]
    | cons c line => simp [ways_lineEnd_cons, hline c List.mem_cons_self]

/-- The lines of a text. -/
def lines (isEnd : α → Bool) (text : List α) : List (List α) := text.splitOnP isEnd

omit [DecidableEq α] in
/-- No line has the end of a line in it. -/
theorem isEnd_of_mem_lines {text line : List α} {c : α} (hline : line ∈ lines isEnd text)
    (hc : c ∈ line) : isEnd c = false := by
  induction text generalizing line with
  | nil =>
    rw [List.mem_singleton.mp hline] at hc
    exact absurd hc List.not_mem_nil
  | cons a text ih =>
    rw [lines, List.splitOnP_cons_eq_if_modifyHead] at hline
    split at hline
    · rcases List.mem_cons.mp hline with rfl | hline
      · exact absurd hc List.not_mem_nil
      · exact ih hline hc
    · rename_i ha
      cases hsplit : text.splitOnP isEnd with
      | nil => exact absurd hsplit (List.splitOnP_ne_nil _ _)
      | cons first more =>
        have hfirst : first ∈ lines isEnd text := by rw [lines, hsplit]; exact List.mem_cons_self
        have hmore : ∀ l ∈ more, l ∈ lines isEnd text := fun l hl => by
          rw [lines, hsplit]
          exact List.mem_cons_of_mem _ hl
        rw [hsplit, List.modifyHead_cons] at hline
        rcases List.mem_cons.mp hline with rfl | hline
        · rcases List.mem_cons.mp hc with rfl | hc
          · simpa using ha
          · exact ih hfirst hc
        · exact ih (hmore line hline) hc

omit [DecidableEq α] in
theorem head?_lines (text : List α) :
    (lines isEnd text).head? = some (text.takeWhile fun c => !isEnd c) := by
  induction text with
  | nil => rfl
  | cons c cs ih =>
    rw [lines, List.splitOnP_cons_eq_if_modifyHead]
    cases hc : isEnd c with
    | true => simp [hc]
    | false =>
      rw [if_neg (by simp), List.takeWhile_cons_of_pos (by simp [hc])]
      rw [lines] at ih
      cases hsplit : cs.splitOnP isEnd with
      | nil => rw [hsplit] at ih; exact absurd ih (by simp)
      | cons line more =>
        rw [hsplit, List.head?_cons, Option.some.injEq] at ih
        rw [List.modifyHead_cons, List.head?_cons, ih]

/-- What matches at the head of a text matches in its first line. -/
theorem first_eq {p : Pattern α} (hp : p.Inline isEnd) (text : List α) :
    p.first text = p.first (text.takeWhile fun c => !isEnd c) := by
  have hsplit := List.takeWhile_append_dropWhile (p := fun c => !isEnd c) (l := text)
  have hline : ∀ c ∈ text.takeWhile (fun c => !isEnd c), isEnd c = false := fun c hc => by
    simpa using List.mem_takeWhile_imp hc
  cases hdrop : text.dropWhile fun c => !isEnd c with
  | nil =>
    rw [hdrop, List.append_nil] at hsplit
    rw [hsplit]
  | cons t rest =>
    have ht : isEnd t = true := by
      have hne : text.dropWhile (fun c => !isEnd c) ≠ [] := by rw [hdrop]; simp
      have hhead := List.head_dropWhile_not (fun c => !isEnd c) hne
      simpa [hdrop] using hhead
    rw [hdrop] at hsplit
    conv_lhs => rw [← hsplit]
    rw [first, ways_append hp ht hline, List.head?_map, Option.map_map]
    rfl

/-- The line that starts here, and then the others. -/
theorem searchLines_true (p : Pattern α) (text : List α) :
    searchLines isEnd p true text = (p.first text).or (searchLines isEnd p false text) := by
  cases text with
  | nil => simp [searchLines_nil]
  | cons c cs => simp [searchLines_cons]

theorem searchLines_false {p : Pattern α} (hp : p.Inline isEnd) (text : List α) :
    searchLines isEnd p false text = (lines isEnd text).tail.findSome? p.first := by
  induction text with
  | nil => rfl
  | cons c cs ih =>
    rw [searchLines_cons, if_neg (by simp), Option.none_or, lines, List.splitOnP_cons_eq_if_modifyHead]
    cases hc : isEnd c with
    | true =>
      have hhead : (lines isEnd cs).head? = some (cs.takeWhile fun c => !isEnd c) := head?_lines cs
      rw [searchLines_true, ih, if_pos rfl, List.tail_cons, first_eq hp]
      rw [lines] at hhead ⊢
      cases hsplit : cs.splitOnP isEnd with
      | nil => rw [hsplit] at hhead; exact absurd hhead (by simp)
      | cons line more =>
        rw [hsplit, List.head?_cons, Option.some.injEq] at hhead
        rw [hhead, List.tail_cons, List.findSome?_cons]
        cases p.first (cs.takeWhile fun c => !isEnd c) <;> rfl
    | false =>
      rw [ih, if_neg (by simp), lines]
      cases cs.splitOnP isEnd <;> rfl

/-- **A search goes from line to line.** -/
theorem searchLines_eq {p : Pattern α} (hp : p.Inline isEnd) (text : List α) :
    searchLines isEnd p true text = (lines isEnd text).findSome? p.first := by
  have hhead : (lines isEnd text).head? = some (text.takeWhile fun c => !isEnd c) :=
    head?_lines text
  rw [searchLines_true, searchLines_false hp, first_eq hp]
  cases hlines : lines isEnd text with
  | nil => rw [hlines] at hhead; exact absurd hhead (by simp)
  | cons line more =>
    rw [hlines, List.head?_cons, Option.some.injEq] at hhead
    rw [hhead, List.tail_cons, List.findSome?_cons]
    cases p.first (text.takeWhile fun c => !isEnd c) <;> rfl

end Pattern

end AgentReliability
