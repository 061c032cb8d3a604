import AgentReliability.Common.Utf8
import Mathlib.Data.List.Infix
import Mathlib.Data.List.Intervals
import Mathlib.Tactic.Common
/-!
# Masking words of a text

`split` cuts a text at the matches it finds from the left, `mask` puts a mark
between the pieces. The matcher says how many symbols match at the head of a
text, none for no match.

Two things are proved of it. What is shown is the text with some of its words
under a mark and the rest in place (`masked_mask`), also when what is shown is
masked again (`Masked.trans`). And a word the matcher finds is nowhere in what
is shown (`not_infix_mask`), where the mark is in brackets that the word does
not have.
-/

namespace AgentReliability

namespace Masking

variable {α : Type}

/-- The pieces of a text between its matches, after the symbols that are left
of a match. -/
def split (m : List α → ℕ) : ℕ → List α → List (List α)
  | _, [] => [[]]
  | k + 1, _ :: cs => split m k cs
  | 0, c :: cs =>
    match m (c :: cs) with
    | 0 => (split m 0 cs).modifyHead (c :: ·)
    | n + 1 => [] :: split m n cs

/-- The text with a mark for each match. -/
def mask (m : List α → ℕ) (mark text : List α) : List α := mark.intercalate (split m 0 text)

variable {m : List α → ℕ} {mark text : List α}

theorem split_skip (k : ℕ) (text : List α) : split m k text = split m 0 (text.drop k) := by
  induction text generalizing k with
  | nil => simp [split]
  | cons c cs ih =>
    cases k with
    | zero => rfl
    | succ k => rw [split, ih, List.drop_succ_cons]

/-- There is a first piece, and the text starts with it. -/
theorem split_head (text : List α) :
    ∃ piece pieces, split m 0 text = piece :: pieces ∧ piece <+: text := by
  induction text with
  | nil => exact ⟨[], [], rfl, List.nil_prefix⟩
  | cons c cs ih =>
    obtain ⟨piece, pieces, hsplit, hprefix⟩ := ih
    rw [split]
    split
    · rw [hsplit]
      exact ⟨c :: piece, pieces, rfl, List.cons_prefix_cons.mpr ⟨rfl, hprefix⟩⟩
    · exact ⟨[], _, rfl, List.nil_prefix⟩

/-! ## What is shown -/

/-- **`Masked W mark text shown`**: `shown` is `text` with some words of `W`
under a mark, and all else in place. -/
inductive Masked (W : List α → Prop) (mark : List α) : List α → List α → Prop
  | nil : Masked W mark [] []
  | keep (c : α) {text shown : List α} (h : Masked W mark text shown) :
      Masked W mark (c :: text) (c :: shown)
  | hide {w text shown : List α} (hw : W w) (h : Masked W mark text shown) :
      Masked W mark (w ++ text) (mark ++ shown)

/-- What a matcher matches. -/
def Matched (m : List α → ℕ) (w : List α) : Prop := w ≠ [] ∧ ∃ rest, m (w ++ rest) = w.length

theorem mask_cons_of_zero {c : α} {cs : List α} (h : m (c :: cs) = 0) :
    mask m mark (c :: cs) = c :: mask m mark cs := by
  obtain ⟨piece, pieces, hsplit, -⟩ := split_head (m := m) cs
  rw [mask, mask, split, h, hsplit]
  cases pieces with
  | nil => simp [List.modifyHead]
  | cons q qs => simp [List.modifyHead, List.intercalate_cons_cons]

theorem mask_cons_of_succ {c : α} {cs : List α} {n : ℕ} (h : m (c :: cs) = n + 1) :
    mask m mark (c :: cs) = mark ++ mask m mark (cs.drop n) := by
  obtain ⟨piece, pieces, hsplit, -⟩ := split_head (m := m) (cs.drop n)
  rw [mask, mask, split, h]
  simp only
  rw [split_skip, hsplit, List.intercalate_cons_cons, List.nil_append]

/-- **Masking hides matches, and keeps the rest in place.** -/
theorem masked_mask (hm : ∀ cs, m cs ≤ cs.length) (text : List α) :
    Masked (Matched m) mark text (mask m mark text) := by
  -- By induction on the length: a match is left behind as a whole.
  induction hn : text.length using Nat.strong_induction_on generalizing text with
  | _ n ih =>
    cases text with
    | nil => simpa [mask, split] using Masked.nil
    | cons c cs =>
      rw [List.length_cons] at hn
      cases hmatch : m (c :: cs) with
      | zero =>
        rw [mask_cons_of_zero hmatch]
        exact .keep c (ih _ (by omega) cs rfl)
      | succ k =>
        have hk := hm (c :: cs)
        rw [hmatch, List.length_cons] at hk
        have hcs : c :: cs = (c :: cs.take k) ++ cs.drop k := by
          rw [List.cons_append, List.take_append_drop]
        have hlength : (c :: cs.take k).length = k + 1 := by
          rw [List.length_cons, List.length_take]
          omega
        have hword : Matched m (c :: cs.take k) :=
          ⟨List.cons_ne_nil _ _, cs.drop k, by rw [← hcs, hmatch, hlength]⟩
        have hrest := ih (cs.drop k).length (by rw [List.length_drop]; omega) _ rfl
        rw [mask_cons_of_succ hmatch]
        exact hcs ▸ .hide hword hrest

theorem Masked.refl {W : List α → Prop} (text : List α) : Masked W mark text text := by
  induction text with
  | nil => exact .nil
  | cons c cs ih => exact .keep c ih

theorem Masked.weaken {W W' : List α → Prop} (hW : ∀ w, W w → W' w) {shown : List α}
    (h : Masked W mark text shown) : Masked W' mark text shown := by
  induction h with
  | nil => exact .nil
  | keep c _ ih => exact .keep c ih
  | hide hw _ ih => exact .hide (hW _ hw) ih

/-- Symbols that no mark starts with were in the text. -/
theorem Masked.of_append {W : List α → Prop} {o : α} {inner : List α} {w rest text : List α}
    (ho : o ∉ w) (h : Masked W (o :: inner) text (w ++ rest)) :
    ∃ text', text = w ++ text' ∧ Masked W (o :: inner) text' rest := by
  induction w generalizing text with
  | nil => exact ⟨text, rfl, h⟩
  | cons c w ih =>
    obtain ⟨hc, how⟩ := not_or.mp (mt List.mem_cons.mpr ho)
    generalize hshown : c :: w ++ rest = shown at h
    cases h with
    | nil => exact absurd hshown (List.cons_ne_nil _ _)
    | keep d h =>
      obtain ⟨rfl, rfl⟩ := List.cons.inj hshown
      obtain ⟨text', rfl, h'⟩ := ih how h
      exact ⟨text', rfl, h'⟩
    | hide hw h => exact absurd (List.cons.inj hshown).1.symm hc

/-- The words that may be masked again: they have no bracket of a mark, and
are not inside one. -/
structure Apart (o c : α) (inner w : List α) : Prop where
  ne_nil : w ≠ []
  noOpen : o ∉ w
  noClose : c ∉ w
  notInner : ¬ w <:+: inner

/-- A word without the symbol after a text ends inside it. -/
theorem prefix_of_prefix_append_cons {c : α} {w as bs : List α} (hc : c ∉ w)
    (h : w <+: as ++ c :: bs) : w <+: as := by
  have hmark : as ++ [c] <+: as ++ c :: bs := ⟨bs, by simp⟩
  rcases Nat.lt_or_ge as.length w.length with hlt | hle
  · have hin : as ++ [c] <+: w := by
      refine List.prefix_of_prefix_length_le hmark h ?_
      rw [List.length_append, List.length_singleton]
      omega
    exact absurd (hin.subset (by simp)) hc
  · exact List.prefix_of_prefix_length_le h (List.prefix_append _ _) hle

/-- No word starts inside a mark. -/
theorem Apart.not_isPrefix {o c : α} {inner part rest w : List α} (hw : Apart o c inner w)
    (hne : part ≠ []) (hpart : part <:+ o :: inner ++ [c]) : ¬ w <+: part ++ rest := by
  intro h
  rcases List.suffix_cons_iff.mp hpart with rfl | hpart
  · obtain ⟨d, w, rfl⟩ := List.exists_cons_of_ne_nil hw.ne_nil
    obtain ⟨rfl, -⟩ := List.cons_prefix_cons.mp h
    exact hw.noOpen List.mem_cons_self
  · rcases List.suffix_concat_iff.mp hpart with rfl | ⟨tail, rfl, htail⟩
    · exact hne rfl
    · rw [List.append_assoc, List.singleton_append] at h
      exact hw.notInner ((prefix_of_prefix_append_cons hw.noClose h).isInfix.trans htail.isInfix)

/-- What is shown of a mark stays as it is. -/
theorem Masked.of_mark {W : List α → Prop} {o c : α} {inner part rest shown : List α}
    (hW : ∀ w, W w → Apart o c inner w) (hpart : part <:+ o :: inner ++ [c])
    (h : Masked W mark (part ++ rest) shown) :
    ∃ shown', shown = part ++ shown' ∧ Masked W mark rest shown' := by
  induction part generalizing shown with
  | nil => exact ⟨shown, rfl, h⟩
  | cons d part ih =>
    generalize htext : d :: part ++ rest = text at h
    cases h with
    | nil => exact absurd htext (List.cons_ne_nil _ _)
    | keep e h =>
      obtain ⟨rfl, rfl⟩ := List.cons.inj htext
      obtain ⟨shown', rfl, h'⟩ := ih ((List.suffix_cons d part).trans hpart) h
      exact ⟨shown', rfl, h'⟩
    | hide hw h =>
      exact absurd ⟨_, htext.symm⟩ ((hW _ hw).not_isPrefix (List.cons_ne_nil d part) hpart)

/-- **What is masked twice is masked once, with the words of both.** -/
theorem Masked.trans {W W' : List α → Prop} {o c : α} {inner text shown shown' : List α}
    (h : Masked W (o :: inner ++ [c]) text shown)
    (h' : Masked W' (o :: inner ++ [c]) shown shown') (hW' : ∀ w, W' w → Apart o c inner w) :
    Masked (fun w => W w ∨ W' w) (o :: inner ++ [c]) text shown' := by
  -- By induction on what is shown first: each step of the second masking
  -- takes at least one symbol of it.
  induction hn : shown.length using Nat.strong_induction_on
    generalizing text shown shown' with
  | _ n ih =>
    generalize hsecond : shown = second at h'
    cases h' with
    | nil =>
      cases h with
      | nil => exact .nil
      | keep d h => exact absurd hsecond (List.cons_ne_nil _ _)
      | hide hw h => exact absurd hsecond (List.cons_ne_nil _ _)
    | @keep d second' shown' h' =>
      cases h with
      | nil => exact absurd hsecond.symm (List.cons_ne_nil _ _)
      | @keep e text first h =>
        obtain ⟨rfl, rfl⟩ := List.cons.inj hsecond
        rw [List.length_cons] at hn
        exact .keep e (ih _ (by omega) h h' rfl)
      | @hide w text first hw h =>
        have hboth : Masked W' (o :: inner ++ [c]) (o :: inner ++ [c] ++ first) (d :: shown') :=
          hsecond ▸ .keep d h'
        obtain ⟨shown₂, heq, hrest⟩ := hboth.of_mark hW' List.suffix_rfl
        rw [heq]
        rw [List.length_append, List.length_append, List.length_cons] at hn
        exact .hide (.inl hw) (ih _ (by omega) h hrest rfl)
    | @hide w second' shown' hw h' =>
      subst hsecond
      have hapart := hW' w hw
      obtain ⟨text', rfl, hrest⟩ := Masked.of_append hapart.noOpen h
      have hpos := List.length_pos_of_ne_nil hapart.ne_nil
      rw [List.length_append] at hn
      exact .hide (.inr hw) (ih _ (by omega) hrest h' rfl)

/-! ## What is not shown -/

/-- The matcher finds none of the words it knows in a piece. -/
theorem not_infix_piece {w : List α} (hne : w ≠ []) (hfound : ∀ cs, w <+: cs → 0 < m cs)
    {piece : List α} {k : ℕ} (h : piece ∈ split m k text) : ¬ w <:+: piece := by
  induction text generalizing k piece with
  | nil =>
    have hnil : piece = [] := by simpa [split] using h
    rw [hnil, List.infix_nil]
    exact hne
  | cons c cs ih =>
    cases k with
    | succ k => exact ih h
    | zero =>
      rw [split] at h
      split at h
      · next hzero =>
        obtain ⟨first, pieces, hsplit, hprefix⟩ := split_head (m := m) cs
        rw [hsplit, List.modifyHead_cons] at h
        rcases List.mem_cons.mp h with rfl | h
        · rw [List.infix_cons_iff]
          rintro (hw | hw)
          · have hmatch := hfound _ (hw.trans (List.cons_prefix_cons.mpr ⟨rfl, hprefix⟩))
            omega
          · exact ih (hsplit ▸ List.mem_cons_self) hw
        · exact ih (hsplit ▸ List.mem_cons_of_mem first h)
      · rcases List.mem_cons.mp h with rfl | h
        · rw [List.infix_nil]
          exact hne
        · exact ih h

/-- The pieces are parts of the text. -/
theorem infix_of_mem_split {piece : List α} {k : ℕ} (h : piece ∈ split m k text) :
    piece <:+: text := by
  induction text generalizing k piece with
  | nil => simpa [split] using h
  | cons c cs ih =>
    cases k with
    | succ k => exact List.infix_cons (ih h)
    | zero =>
      rw [split] at h
      split at h
      · obtain ⟨first, pieces, hsplit, hprefix⟩ := split_head (m := m) cs
        rw [hsplit, List.modifyHead_cons] at h
        rcases List.mem_cons.mp h with rfl | h
        · exact (List.cons_prefix_cons.mpr ⟨rfl, hprefix⟩).isInfix
        · exact List.infix_cons (ih (hsplit ▸ List.mem_cons_of_mem first h))
      · rcases List.mem_cons.mp h with rfl | h
        · exact List.nil_infix
        · exact List.infix_cons (ih h)

/-- **A word without the brackets of the mark is in a piece.** -/
theorem Apart.mem_of_infix {o c : α} {inner w : List α} (hw : Apart o c inner w)
    {pieces : List (List α)} (h : w <:+: (o :: inner ++ [c]).intercalate pieces) :
    ∃ piece ∈ pieces, w <:+: piece := by
  induction pieces with
  | nil => exact absurd (List.infix_nil.mp (by simpa using h)) hw.ne_nil
  | cons first pieces ih =>
    cases pieces with
    | nil => exact ⟨first, List.mem_cons_self, by simpa using h⟩
    | cons second pieces =>
      have hshape : (o :: inner ++ [c]).intercalate (first :: second :: pieces) =
          first ++ o :: (inner ++ c :: (o :: inner ++ [c]).intercalate (second :: pieces)) := by
        rw [List.intercalate_cons_cons]
        simp
      rw [hshape, TextLines.infix_append_cons_iff hw.noOpen,
        TextLines.infix_append_cons_iff hw.noClose] at h
      rcases h with h | h | h
      · exact ⟨first, List.mem_cons_self, h⟩
      · exact absurd h hw.notInner
      · obtain ⟨piece, hpiece, hin⟩ := ih h
        exact ⟨piece, List.mem_cons_of_mem _ hpiece, hin⟩

/-- **What the matcher finds is not shown.** -/
theorem not_infix_mask {o c : α} {inner w : List α} (hw : Apart o c inner w)
    (hfound : ∀ cs, w <+: cs → 0 < m cs) : ¬ w <:+: mask m (o :: inner ++ [c]) text := by
  intro h
  obtain ⟨piece, hpiece, hin⟩ := hw.mem_of_infix h
  exact not_infix_piece hw.ne_nil hfound hpiece hin

/-- **What was not in the text is not shown.** -/
theorem not_infix_mask_of_not_infix {o c : α} {inner w : List α} (hw : Apart o c inner w)
    (h : ¬ w <:+: text) : ¬ w <:+: mask m (o :: inner ++ [c]) text := by
  intro hin
  obtain ⟨piece, hpiece, hin⟩ := hw.mem_of_infix hin
  exact h (hin.trans (infix_of_mem_split hpiece))

end Masking

end AgentReliability
