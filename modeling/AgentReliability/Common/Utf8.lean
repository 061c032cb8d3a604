import Mathlib.Data.List.Infix
import Mathlib.Tactic.Common
/-!
# Lines of text, and UTF-8

What is in a text that is given by its lines: a phrase, behind the start of
a line or not. And texts with the bytes they are encoded as. An ASCII byte is
never a part of another character, so that what is encoded can be split at
it, and a phrase of ASCII characters is in a text exactly if its bytes are
among those of the text.
-/

namespace AgentReliability

namespace TextLines

variable {α : Type} {feed : α} {phrase : List α}

theorem infix_append_cons_iff (hphrase : feed ∉ phrase) {as bs : List α} :
    phrase <:+: as ++ feed :: bs ↔ phrase <:+: as ∨ phrase <:+: bs := by
  constructor
  · rintro ⟨x, y, h⟩
    rcases List.append_eq_append_iff.mp h with ⟨rest, rfl, -⟩ | ⟨rest, hfront, hback⟩
    · exact .inl ⟨x, rest, rfl⟩
    · cases rest with
      | nil => exact .inl ⟨x, [], by simpa using hfront⟩
      | cons c rest =>
        -- the feed stands before the phrase
        obtain ⟨rfl, hbs⟩ := List.cons.inj hback
        rcases List.append_eq_append_iff.mp hfront with ⟨part, -, hmem⟩ | ⟨part, -, hmem⟩
        · exact absurd (by simp [hmem]) hphrase
        · cases part with
          | nil =>
            obtain rfl : _ = phrase := hmem
            exact absurd List.mem_cons_self hphrase
          | cons d part =>
            obtain ⟨-, rfl⟩ := List.cons.inj hmem
            exact .inr ⟨part, y, hbs.symm⟩
  · rintro (⟨x, y, rfl⟩ | ⟨x, y, rfl⟩)
    · exact ⟨x, y ++ feed :: bs, by simp⟩
    · exact ⟨as ++ feed :: x, y, by simp⟩

/-- **A phrase is found where it is in a line.** -/
theorem infix_lines_iff (hphrase : feed ∉ phrase) (hne : phrase ≠ []) {lines : List (List α)} :
    phrase <:+: lines.flatMap (fun line => line ++ [feed]) ↔ ∃ line ∈ lines, phrase <:+: line := by
  induction lines with
  | nil => simp [hne]
  | cons line lines ih =>
    rw [List.flatMap_cons, List.append_assoc, List.singleton_append,
      infix_append_cons_iff hphrase, ih]
    simp

theorem cons_infix_append_cons_iff {as bs : List α} (has : feed ∉ as) :
    feed :: phrase <:+: as ++ feed :: bs ↔ phrase <+: bs ∨ feed :: phrase <:+: bs := by
  induction as with
  | nil => rw [List.nil_append, List.infix_cons_iff, List.cons_prefix_cons, and_iff_right rfl]
  | cons a as ih =>
    obtain ⟨hne, htail⟩ := not_or.mp (mt List.mem_cons.mpr has)
    rw [List.cons_append, List.infix_cons_iff, List.cons_prefix_cons, ih htail]
    simp [hne]

theorem prefix_lines_iff (hphrase : feed ∉ phrase) (hne : phrase ≠ []) {lines : List (List α)} :
    phrase <+: lines.flatMap (fun line => line ++ [feed]) ↔
      ∃ line ∈ lines.head?, phrase <+: line := by
  cases lines with
  | nil => simp [hne]
  | cons line lines =>
    rw [List.flatMap_cons, List.append_assoc, List.singleton_append]
    simp only [List.head?_cons, Option.mem_def, Option.some.injEq, exists_eq_left']
    refine ⟨fun h => ?_, fun h => h.trans (List.prefix_append _ _)⟩
    obtain ⟨y, h⟩ := h
    rcases List.append_eq_append_iff.mp h with ⟨rest, rfl, -⟩ | ⟨rest, rfl, hback⟩
    · exact List.prefix_append _ _
    · cases rest with
      | nil => simp
      | cons c rest =>
        obtain ⟨rfl, -⟩ := List.cons.inj hback
        exact absurd (by simp) hphrase

/-- **A phrase is found behind a feed where a line starts with it,** the
first apart. -/
theorem feed_infix_lines_iff (hphrase : feed ∉ phrase) (hne : phrase ≠ [])
    {lines : List (List α)} (hlines : ∀ line ∈ lines, feed ∉ line) :
    feed :: phrase <:+: lines.flatMap (fun line => line ++ [feed]) ↔
      ∃ line ∈ lines.tail, phrase <+: line := by
  induction lines with
  | nil => simp
  | cons line lines ih =>
    obtain ⟨hline, hrest⟩ := List.forall_mem_cons.mp hlines
    rw [List.flatMap_cons, List.append_assoc, List.singleton_append,
      cons_infix_append_cons_iff hline, prefix_lines_iff hphrase hne, ih hrest, List.tail_cons]
    cases lines <;> simp

section Split

variable (feed) [DecidableEq α]

/-- The rest of the lines, after the symbols of the one that is being read,
in reverse. -/
def splitFrom (line : List α) : List α → List (List α)
  | [] => if line = [] then [] else [line.reverse]
  | a :: as => if a = feed then line.reverse :: splitFrom [] as else splitFrom (a :: line) as

/-- The lines of a file, the last with a line feed or without. -/
def split (file : List α) : List (List α) := splitFrom feed [] file

variable {feed}

theorem not_mem_of_mem_splitFrom {line as : List α} (hline : feed ∉ line) :
    ∀ part ∈ splitFrom feed line as, feed ∉ part := by
  induction as generalizing line with
  | nil =>
    intro part hpart
    unfold splitFrom at hpart
    split at hpart
    · exact absurd hpart List.not_mem_nil
    · rwa [List.mem_singleton.mp hpart, List.mem_reverse]
  | cons a as ih =>
    intro part hpart
    unfold splitFrom at hpart
    split at hpart
    · rcases List.mem_cons.mp hpart with rfl | hpart
      · rwa [List.mem_reverse]
      · exact ih List.not_mem_nil part hpart
    · rename_i hne
      refine ih ?_ part hpart
      rw [List.mem_cons, not_or]
      exact ⟨Ne.symm hne, hline⟩

/-- No line has a line feed of its own. -/
theorem not_mem_of_mem_split {file part : List α} (hpart : part ∈ split feed file) : feed ∉ part :=
  not_mem_of_mem_splitFrom List.not_mem_nil part hpart

theorem splitFrom_append {as : List α} (has : feed ∉ as) (line rest : List α) :
    splitFrom feed line (as ++ feed :: rest) = (line.reverse ++ as) :: splitFrom feed [] rest := by
  induction as generalizing line with
  | nil => rw [List.nil_append, splitFrom, if_pos rfl, List.append_nil]
  | cons a as ih =>
    obtain ⟨hne, htail⟩ := not_or.mp (mt List.mem_cons.mpr has)
    rw [List.cons_append, splitFrom, if_neg (Ne.symm hne), ih htail, List.reverse_cons,
      List.append_assoc, List.singleton_append]

theorem split_line {as : List α} (has : feed ∉ as) : split feed (as ++ [feed]) = [as] :=
  splitFrom_append has [] []

theorem splitFrom_ne_nil {line as : List α} (h : line ≠ [] ∨ as ≠ []) :
    splitFrom feed line as ≠ [] := by
  induction as generalizing line with
  | nil => simpa [splitFrom] using h
  | cons a as ih =>
    unfold splitFrom
    split
    · exact List.cons_ne_nil _ _
    · exact ih (.inl (List.cons_ne_nil _ _))

theorem split_ne_nil {file : List α} (h : file ≠ []) : split feed file ≠ [] :=
  splitFrom_ne_nil (.inr h)

end Split

end TextLines

namespace Utf8

def encode (cs : List Char) : List UInt8 := cs.flatMap String.utf8EncodeChar

/-- `bytes.decode('utf-8')`. -/
@[irreducible] def decode (bytes : List UInt8) : Option String := String.fromUTF8? bytes.toByteArray

/-- A character as a byte, where it is ASCII. -/
def ascii (c : Char) : UInt8 := .ofNat c.toNat

def IsAscii (cs : List Char) : Prop := ∀ c ∈ cs, c.toNat < 128

instance (cs : List Char) : Decidable (IsAscii cs) := List.decidableBAll _ _

@[simp] theorem encode_nil : encode [] = [] := rfl

@[simp] theorem encode_cons (c : Char) (cs : List Char) :
    encode (c :: cs) = String.utf8EncodeChar c ++ encode cs := rfl

@[simp] theorem encode_append (cs ds : List Char) : encode (cs ++ ds) = encode cs ++ encode ds :=
  List.flatMap_append

theorem toByteArray_encode (text : String) : (encode text.toList).toByteArray = text.toByteArray :=
  String.utf8Encode_toList

/-- **What is decoded is what is encoded so.** -/
theorem decode_eq_some_iff {bytes : List UInt8} {text : String} :
    decode bytes = some text ↔ encode text.toList = bytes := by
  have hbytes : encode text.toList = bytes ↔ text.toByteArray = bytes.toByteArray := by
    rw [← toByteArray_encode]
    refine ⟨congrArg _, fun h => ?_⟩
    have hlists := congrArg (fun bytes => bytes.data.toList) h
    rwa [List.toList_data_toByteArray, List.toList_data_toByteArray] at hlists
  rw [hbytes, decode, String.fromUTF8?]
  split
  · rw [Option.some_inj, ← String.toByteArray_inj, eq_comm]
    rfl
  · rename_i hinvalid
    refine ⟨fun h => absurd h (by simp), fun h => absurd ?_ hinvalid⟩
    rw [← h]
    exact text.isValidUTF8

/-- The bytes of a character are one ASCII byte, or none of them is. -/
theorem utf8EncodeChar_of_lt {c : Char} (hc : c.toNat < 128) :
    String.utf8EncodeChar c = [ascii c] := by
  have hval : c.val.toNat ≤ 127 := Nat.le_of_lt_succ hc
  rw [String.utf8EncodeChar]
  simp only [hval, if_true]
  rfl

theorem le_of_mem_utf8EncodeChar {c : Char} (hc : 128 ≤ c.toNat) {b : UInt8}
    (hb : b ∈ String.utf8EncodeChar c) : 128 ≤ b.toNat := by
  have hval : ¬ c.val.toNat ≤ 127 := by
    change 128 ≤ c.val.toNat at hc
    omega
  rw [String.utf8EncodeChar] at hb
  simp only [hval, if_false] at hb
  split at hb
  · simp only [List.mem_cons, List.not_mem_nil, or_false] at hb
    rcases hb with rfl | rfl <;> simp only [UInt8.toNat_ofNat'] <;> omega
  · split at hb
    · simp only [List.mem_cons, List.not_mem_nil, or_false] at hb
      rcases hb with rfl | rfl | rfl <;> simp only [UInt8.toNat_ofNat'] <;> omega
    · simp only [List.mem_cons, List.not_mem_nil, or_false] at hb
      rcases hb with rfl | rfl | rfl | rfl <;> simp only [UInt8.toNat_ofNat'] <;> omega

theorem toNat_ascii {d : Char} (hd : d.toNat < 128) : (ascii d).toNat = d.toNat := by
  rw [ascii, UInt8.toNat_ofNat']
  omega

theorem ascii_inj {c d : Char} (hc : c.toNat < 128) (hd : d.toNat < 128)
    (h : ascii c = ascii d) : c = d := by
  have hcode := congrArg UInt8.toNat h
  rw [toNat_ascii hc, toNat_ascii hd] at hcode
  exact Char.toNat_inj.mp hcode

theorem encode_eq_nil {cs : List Char} (h : encode cs = []) : cs = [] := by
  cases cs with
  | nil => rfl
  | cons c cs =>
    have hne := String.utf8EncodeChar_ne_nil (c := c)
    exact absurd (List.append_eq_nil_iff.mp h).1 hne

/-- **An ASCII byte is a character of its own.** -/
theorem encode_split {cs : List Char} {x y : List UInt8} {d : Char} (hd : d.toNat < 128)
    (h : encode cs = x ++ ascii d :: y) :
    ∃ as bs, cs = as ++ d :: bs ∧ encode as = x ∧ encode bs = y := by
  induction cs generalizing x with
  | nil => simp at h
  | cons c cs ih =>
    rw [encode_cons] at h
    rcases List.append_eq_append_iff.mp h with ⟨x', rfl, hrest⟩ | ⟨tail, hc, hrest⟩
    · obtain ⟨as, bs, rfl, rfl, rfl⟩ := ih hrest
      exact ⟨c :: as, bs, rfl, rfl, rfl⟩
    · cases tail with
      | nil =>
        obtain ⟨as, bs, rfl, has, rfl⟩ := ih (x := []) hrest.symm
        rw [encode_eq_nil has, List.append_nil] at *
        exact ⟨[c], bs, rfl, by simpa using hc, rfl⟩
      | cons b tail =>
        obtain ⟨rfl, rfl⟩ := List.cons.inj hrest
        have hmem : ascii d ∈ String.utf8EncodeChar c := by simp [hc]
        have hlt : c.toNat < 128 := by
          by_contra hge
          have hle := le_of_mem_utf8EncodeChar (Nat.le_of_not_lt hge) hmem
          rw [toNat_ascii hd] at hle
          omega
        rw [utf8EncodeChar_of_lt hlt] at hc
        rcases List.append_eq_singleton_iff.mp hc.symm with ⟨rfl, hlast⟩ | ⟨-, hlast⟩
        · obtain ⟨hsame, rfl⟩ := List.cons.inj hlast
          obtain rfl := ascii_inj hd hlt hsame
          exact ⟨[], cs, rfl, rfl, rfl⟩
        · exact absurd hlast (List.cons_ne_nil _ _)

/-- The bytes are those of a text. -/
def IsUtf8 (bytes : List UInt8) : Prop := ∃ cs, encode cs = bytes

theorem isUtf8_iff_decode {bytes : List UInt8} : IsUtf8 bytes ↔ ∃ text, decode bytes = some text :=
  ⟨fun ⟨cs, h⟩ => ⟨.ofList cs, decode_eq_some_iff.mpr (by rwa [String.toList_ofList])⟩,
   fun ⟨text, h⟩ => ⟨text.toList, decode_eq_some_iff.mp h⟩⟩

instance (bytes : List UInt8) : Decidable (IsUtf8 bytes) :=
  decidable_of_iff ((decode bytes).isSome = true) (by rw [Option.isSome_iff_exists, isUtf8_iff_decode])

theorem encode_ascii {cs : List Char} (hcs : IsAscii cs) : encode cs = cs.map ascii := by
  induction cs with
  | nil => rfl
  | cons c cs ih =>
    obtain ⟨hc, htail⟩ := List.forall_mem_cons.mp hcs
    rw [encode_cons, utf8EncodeChar_of_lt hc, ih htail, List.map_cons, List.singleton_append]

/-- What stands around an ASCII byte is text of its own. -/
theorem isUtf8_append_cons {d : Char} (hd : d.toNat < 128) {x y : List UInt8} :
    IsUtf8 (x ++ ascii d :: y) ↔ IsUtf8 x ∧ IsUtf8 y := by
  constructor
  · rintro ⟨cs, h⟩
    obtain ⟨as, bs, -, hx, hy⟩ := encode_split hd h
    exact ⟨⟨as, hx⟩, ⟨bs, hy⟩⟩
  · rintro ⟨⟨as, rfl⟩, ⟨bs, rfl⟩⟩
    exact ⟨as ++ d :: bs, by rw [encode_append, encode_cons, utf8EncodeChar_of_lt hd]; rfl⟩

theorem prefix_of_encode {phrase cs : List Char} (hphrase : IsAscii phrase)
    (h : phrase.map ascii <+: encode cs) : phrase <+: cs := by
  induction phrase generalizing cs with
  | nil => exact List.nil_prefix
  | cons d phrase ih =>
    obtain ⟨hd, htail⟩ := List.forall_mem_cons.mp hphrase
    obtain ⟨y, hy⟩ := h
    obtain ⟨as, bs, rfl, has, hbs⟩ := encode_split (x := []) hd hy.symm
    rw [encode_eq_nil has, List.nil_append, List.cons_prefix_cons]
    exact ⟨rfl, ih htail ⟨y, hbs.symm⟩⟩

/-- **A phrase is found among the bytes where it is in the text.** -/
theorem infix_encode_iff {phrase cs : List Char} (hphrase : IsAscii phrase) :
    phrase.map ascii <:+: encode cs ↔ phrase <:+: cs := by
  constructor
  · rintro ⟨x, y, h⟩
    cases phrase with
    | nil => exact List.nil_infix
    | cons d phrase =>
      obtain ⟨hd, htail⟩ := List.forall_mem_cons.mp hphrase
      rw [List.append_assoc] at h
      obtain ⟨as, bs, rfl, -, hbs⟩ := encode_split hd h.symm
      obtain ⟨cs, rfl⟩ := prefix_of_encode htail ⟨y, hbs.symm⟩
      exact ⟨as, cs, by simp⟩
  · rintro ⟨as, bs, rfl⟩
    rw [encode_append, encode_append, encode_ascii hphrase]
    exact List.infix_append _ _ _

theorem isUtf8_nil : IsUtf8 [] := ⟨[], rfl⟩

theorem isUtf8_ascii_append {cs : List Char} (hcs : IsAscii cs) {bytes : List UInt8} :
    IsUtf8 (cs.map ascii ++ bytes) ↔ IsUtf8 bytes := by
  induction cs with
  | nil => rfl
  | cons c cs ih =>
    obtain ⟨hc, htail⟩ := List.forall_mem_cons.mp hcs
    have hsplit := isUtf8_append_cons hc (x := []) (y := cs.map ascii ++ bytes)
    rw [List.map_cons, List.cons_append, ← ih htail]
    exact hsplit.trans (and_iff_right isUtf8_nil)

theorem isUtf8_ascii {cs : List Char} (hcs : IsAscii cs) : IsUtf8 (cs.map ascii) :=
  ⟨cs, encode_ascii hcs⟩

/-- **Lines are text if each of them is.** -/
theorem isUtf8_lines {lines : List (List UInt8)} :
    IsUtf8 (lines.flatMap fun line => line ++ [ascii '\n']) ↔ ∀ line ∈ lines, IsUtf8 line := by
  induction lines with
  | nil => simp [isUtf8_nil]
  | cons line lines ih =>
    rw [List.flatMap_cons, List.append_assoc, List.singleton_append,
      isUtf8_append_cons (by decide), ih, List.forall_mem_cons]

theorem isUtf8_splitFrom {line bytes : List UInt8} (h : IsUtf8 (line.reverse ++ bytes)) :
    ∀ part ∈ TextLines.splitFrom (ascii '\n') line bytes, IsUtf8 part := by
  induction bytes generalizing line with
  | nil =>
    intro part hpart
    unfold TextLines.splitFrom at hpart
    split at hpart
    · exact absurd hpart List.not_mem_nil
    · rwa [List.mem_singleton.mp hpart, ← List.append_nil line.reverse]
  | cons b bytes ih =>
    intro part hpart
    unfold TextLines.splitFrom at hpart
    split at hpart
    · rename_i hfeed
      obtain ⟨hline, hbytes⟩ := (isUtf8_append_cons (by decide)).mp (hfeed ▸ h)
      rcases List.mem_cons.mp hpart with rfl | hpart
      · exact hline
      · rw [← List.nil_append bytes, ← List.reverse_nil] at hbytes
        exact ih hbytes part hpart
    · refine ih ?_ part hpart
      rwa [List.reverse_cons, List.append_assoc]

/-- The lines of a text are text. -/
theorem isUtf8_of_mem_split {file part : List UInt8} (hfile : IsUtf8 file)
    (hpart : part ∈ TextLines.split (ascii '\n') file) : IsUtf8 part :=
  isUtf8_splitFrom (by rwa [List.reverse_nil, List.nil_append]) part hpart

end Utf8

end AgentReliability
