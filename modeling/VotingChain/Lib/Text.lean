/-
# `VotingChain.Lib.Text` — text in UTF-8, its lines and its words

A text is a list of characters.  It is decoded from bytes, if they are the UTF-8 form of one;
it is searched for the first place where another text is found; it is cut into lines and
words; and it is put into lower case.

What the lower case of a character is depends on the text around it, and on large tables.
`LowerCase` has of them what a program can rely on that looks for words of ASCII letters.
-/
import Mathlib.Data.List.DropRight
import Mathlib.Data.List.Infix

namespace Text

/-! ## UTF-8 -/

def encode (text : List Char) : List UInt8 := (String.ofList text).toByteArray.data.toList

/-- The text with this UTF-8 form, if there is one. -/
def decode (bytes : List UInt8) : Option (List Char) :=
  (String.fromUTF8? ⟨bytes.toArray⟩).map String.toList

theorem encode_append (s t : List Char) : encode (s ++ t) = encode s ++ encode t := by
  rw [encode, String.ofList_append, String.toByteArray_append, ByteArray.data_append,
    Array.toList_append]
  rfl

theorem mk_encode (text : List Char) : (⟨(encode text).toArray⟩ : ByteArray) = text.utf8Encode := by
  rw [encode, Array.toArray_toList, String.toByteArray_ofList]

theorem decode_encode (text : List Char) : decode (encode text) = some text := by
  have hread : String.fromUTF8? text.utf8Encode = some (String.ofList text) :=
    dif_pos ByteArray.isValidUTF8_utf8Encode
  rw [decode, mk_encode, hread, Option.map_some, String.toList_ofList]

theorem encode_injective : Function.Injective encode := by
  intro s t h
  have hs := decode_encode s
  rw [h, decode_encode] at hs
  exact (Option.some.inj hs).symm

theorem decode_eq_some_iff {bytes : List UInt8} {text : List Char} :
    decode bytes = some text ↔ bytes = encode text := by
  constructor
  · intro h
    obtain ⟨s, hread, rfl⟩ := Option.map_eq_some_iff.mp h
    rw [String.fromUTF8?] at hread
    split at hread
    · cases hread
      rw [encode, String.ofList_toList]
      rfl
    · cases hread
  · rintro rfl
    exact decode_encode text

theorem decode_encode_append (text : List Char) (bytes : List UInt8) :
    decode (encode text ++ bytes) = (decode bytes).map (text ++ ·) := by
  cases hrest : decode bytes with
  | some rest =>
      rw [decode_eq_some_iff] at hrest
      rw [hrest, ← encode_append, decode_encode, Option.map_some]
  | none =>
      cases hall : decode (encode text ++ bytes) with
      | none => rfl
      | some all =>
          rw [decode_eq_some_iff] at hall
          have hbytes : text.utf8Encode ++ ⟨bytes.toArray⟩ = all.utf8Encode := by
            rw [← mk_encode all, ← hall, ← mk_encode text]
            apply ByteArray.ext
            rw [ByteArray.data_append, ← List.append_toArray]
          obtain ⟨rest, rfl⟩ := List.isPrefix_of_utf8Encode_append_eq_utf8Encode _ hbytes
          rw [encode_append] at hall
          rw [List.append_cancel_left hall, decode_encode] at hrest
          cases hrest

/-- Two beginnings of the same bytes: what the shorter one says, the longer one says first. -/
theorem prefix_of_encode_append {s t : List Char} {x y : List UInt8}
    (h : encode s ++ x = encode t ++ y) (hlen : (encode s).length ≤ (encode t).length) :
    s <+: t := by
  obtain ⟨z, hz⟩ := List.prefix_of_prefix_length_le ⟨x, h⟩ (List.prefix_append _ y) hlen
  have hdecode := decode_encode t
  rw [← hz, decode_encode_append] at hdecode
  obtain ⟨rest, -, hrest⟩ := Option.map_eq_some_iff.mp hdecode
  exact ⟨rest, hrest⟩

/-! ## The first place where a text is found -/

section Find
variable {α : Type} [DecidableEq α]

/-- Where `pattern` is found first. -/
def find (pattern : List α) : List α → Option Nat
  | [] => if pattern = [] then some 0 else none
  | c :: rest => if pattern <+: c :: rest then some 0 else (find pattern rest).map (· + 1)

theorem find_eq_some_iff {pattern text : List α} {i : Nat} :
    find pattern text = some i ↔
      i ≤ text.length ∧ pattern <+: text.drop i ∧ ∀ j < i, ¬pattern <+: text.drop j := by
  induction text generalizing i with
  | nil =>
      rw [find, List.length_nil, Nat.le_zero, List.drop_nil, List.prefix_nil]
      split
      · rename_i hnil
        rw [Option.some.injEq]
        constructor
        · rintro rfl
          exact ⟨rfl, hnil, fun j hj => absurd hj (Nat.not_lt_zero j)⟩
        · exact fun h => h.1.symm
      · rename_i hnil
        constructor
        · intro h
          cases h
        · exact fun h => absurd h.2.1 hnil
  | cons c rest ih =>
      rw [find]
      split
      · rename_i hhere
        rw [Option.some.injEq]
        constructor
        · rintro rfl
          exact ⟨Nat.zero_le _, hhere, fun j hj => absurd hj (Nat.not_lt_zero j)⟩
        · rintro ⟨-, -, hfirst⟩
          by_contra hne
          exact hfirst 0 (Nat.pos_of_ne_zero (Ne.symm hne)) hhere
      · rename_i hhere
        rw [Option.map_eq_some_iff]
        constructor
        · rintro ⟨k, hk, rfl⟩
          obtain ⟨hle, hfound, hfirst⟩ := ih.mp hk
          refine ⟨Nat.succ_le_succ hle, hfound, ?_⟩
          intro j hj
          cases j with
          | zero => exact hhere
          | succ j => exact hfirst j (Nat.lt_of_succ_lt_succ hj)
        · rintro ⟨hle, hfound, hfirst⟩
          cases i with
          | zero => exact absurd hfound hhere
          | succ k =>
              refine ⟨k, ih.mpr ⟨Nat.le_of_succ_le_succ hle, hfound, ?_⟩, rfl⟩
              exact fun j hj => hfirst (j + 1) (Nat.succ_lt_succ hj)

theorem add_length_le_of_find {pattern text : List α} {i : Nat}
    (h : find pattern text = some i) : i + pattern.length ≤ text.length := by
  obtain ⟨hle, hfound, -⟩ := find_eq_some_iff.mp h
  have hlen := hfound.length_le
  rw [List.length_drop] at hlen
  omega

theorem eq_of_find {pattern text : List α} {i : Nat} (h : find pattern text = some i) :
    text = text.take i ++ pattern ++ text.drop (i + pattern.length) := by
  obtain ⟨-, ⟨rest, hrest⟩, -⟩ := find_eq_some_iff.mp h
  have hdrop : text.drop (i + pattern.length) = rest := by
    rw [← List.drop_drop, ← hrest, List.drop_left]
  rw [hdrop, List.append_assoc, hrest, List.take_append_drop]

theorem find_append_iff {pattern text : List α} {i : Nat} (more : List α)
    (hlen : i + pattern.length ≤ text.length) :
    find pattern (text ++ more) = some i ↔ find pattern text = some i := by
  have hsame : ∀ j ≤ i, pattern <+: (text ++ more).drop j ↔ pattern <+: text.drop j := by
    intro j hj
    rw [List.drop_append_of_le_length (by omega)]
    constructor
    · intro h
      refine List.prefix_of_prefix_length_le h (List.prefix_append _ _) ?_
      rw [List.length_drop]
      omega
    · exact fun h => h.trans (List.prefix_append _ _)
  rw [find_eq_some_iff, find_eq_some_iff, hsame i (Nat.le_refl i)]
  refine and_congr ?_ (and_congr_right fun _ => forall₂_congr fun j hj => ?_)
  · rw [List.length_append]
    constructor <;> omega
  · rw [hsame j (Nat.le_of_lt hj)]

end Find

/-! ## Lines -/

/-- A line without the carriage return before its end. -/
def stripCr (line : List Char) : List Char :=
  if line.getLast? = some '\r' then line.dropLast else line

/-- The lines of a text of which the beginning of the first one is known. -/
def linesFrom (line : List Char) : List Char → List (List Char)
  | [] => if line = [] then [] else [line]
  | c :: rest =>
      if c = '\n' then stripCr line :: linesFrom [] rest else linesFrom (line ++ [c]) rest

/-- The lines, without their ends.  What comes after the last end is a line if it is not
empty, and it is taken as it is. -/
def lines (text : List Char) : List (List Char) := linesFrom [] text

theorem linesFrom_append (line s t : List Char) :
    linesFrom line (s ++ '\n' :: t) = linesFrom line (s ++ ['\n']) ++ lines t := by
  induction s generalizing line with
  | nil =>
      rw [List.nil_append, List.nil_append, linesFrom, linesFrom, if_pos rfl, if_pos rfl]
      rfl
  | cons c s ih =>
      rw [List.cons_append, List.cons_append, linesFrom, linesFrom]
      split
      · rw [ih, List.cons_append]
      · exact ih _

theorem lines_append (s t : List Char) : lines (s ++ '\n' :: t) = lines (s ++ ['\n']) ++ lines t :=
  linesFrom_append [] s t

theorem stripCr_append_cr (line : List Char) : stripCr (line ++ ['\r']) = line := by
  rw [stripCr, List.getLast?_concat, if_pos rfl, List.dropLast_concat]

theorem linesFrom_end (line text : List Char) :
    linesFrom line (text ++ ['\r', '\n']) = linesFrom line text ∨
      linesFrom line (text ++ ['\r', '\n']) = linesFrom line text ++ [[]] := by
  induction text generalizing line with
  | nil =>
      have hcr : ('\r' : Char) ≠ '\n' := by decide
      have hend : linesFrom line ['\r', '\n'] = [line] := by
        rw [linesFrom, if_neg hcr, linesFrom, if_pos rfl, stripCr_append_cr, linesFrom, if_pos rfl]
      rw [List.nil_append, hend]
      cases line with
      | nil => exact Or.inr rfl
      | cons c line => exact Or.inl rfl
  | cons c text ih =>
      rw [List.cons_append, linesFrom, linesFrom]
      split
      · rcases ih [] with h | h
        · exact Or.inl (by rw [h])
        · exact Or.inr (by rw [h, List.cons_append])
      · exact ih _

theorem mem_lines_end {text line : List Char} (hne : line ≠ []) :
    line ∈ lines (text ++ ['\r', '\n']) ↔ line ∈ lines text := by
  have hempty : line ∈ lines text ++ [[]] ↔ line ∈ lines text := by
    rw [List.mem_append, List.mem_singleton]
    exact or_iff_left hne
  rcases linesFrom_end [] text with h | h
  · exact Iff.of_eq (congrArg (line ∈ ·) h)
  · exact (Iff.of_eq (congrArg (line ∈ ·) h)).trans hempty

theorem stripCr_of_not_mem {line : List Char} (h : '\r' ∉ line) : stripCr line = line :=
  if_neg fun hlast => h (List.mem_of_getLast? hlast)

theorem linesFrom_of_not_mem {s : List Char} (h : '\n' ∉ s) (line rest : List Char) :
    linesFrom line (s ++ '\n' :: rest) = stripCr (line ++ s) :: lines rest := by
  induction s generalizing line with
  | nil =>
      rw [List.nil_append, linesFrom, if_pos rfl, List.append_nil]
      rfl
  | cons c s ih =>
      obtain ⟨hc, hs⟩ := List.ne_and_not_mem_of_not_mem_cons h
      rw [List.cons_append, linesFrom, if_neg (Ne.symm hc), ih hs, List.append_assoc,
        List.singleton_append]

theorem lines_cons {line : List Char} (hend : '\n' ∉ line) (hcr : '\r' ∉ line)
    (rest : List Char) : lines (line ++ '\n' :: rest) = line :: lines rest := by
  rw [lines, linesFrom_of_not_mem hend, List.nil_append, stripCr_of_not_mem hcr]

theorem lines_of_not_mem {line : List Char} (hend : '\n' ∉ line) (hne : line ≠ []) :
    lines line = [line] := by
  have hfrom : ∀ before : List Char, linesFrom before line =
      if before ++ line = [] then [] else [before ++ line] := by
    clear hne
    induction line with
    | nil =>
        intro before
        rw [linesFrom, List.append_nil]
    | cons c line ih =>
        intro before
        obtain ⟨hc, hline⟩ := List.ne_and_not_mem_of_not_mem_cons hend
        rw [linesFrom, if_neg (Ne.symm hc), ih hline, List.append_assoc, List.singleton_append]
  rw [lines, hfrom, List.nil_append, if_neg hne]

/-! ## Words and margins -/

/-- The characters with the property `White_Space`. -/
def isWhitespace (c : Char) : Bool :=
  (9 ≤ c.toNat && c.toNat ≤ 13) || c.toNat == 0x20 || c.toNat == 0x85 || c.toNat == 0xa0 ||
    c.toNat == 0x1680 || (0x2000 ≤ c.toNat && c.toNat ≤ 0x200a) || c.toNat == 0x2028 ||
    c.toNat == 0x2029 || c.toNat == 0x202f || c.toNat == 0x205f || c.toNat == 0x3000

def trim (text : List Char) : List Char := (text.dropWhile isWhitespace).rdropWhile isWhitespace

/-- The first of the words between whitespace. -/
def firstWord (text : List Char) : Option (List Char) :=
  match (text.dropWhile isWhitespace).takeWhile fun c => !isWhitespace c with
  | [] => none
  | word => some word

/-! ## Pieces between marks -/

section Pieces
variable {α : Type} [DecidableEq α]

theorem exists_mem_splitOn {mark c : α} {text : List α} :
    (∃ piece ∈ text.splitOn mark, c ∈ piece) ↔ c ∈ text ∧ c ≠ mark := by
  induction text with
  | nil => simp
  | cons d text ih =>
      rw [List.splitOn_cons_eq_if_modifyHead]
      by_cases hd : d = mark
      · rw [if_pos (beq_iff_eq.mpr hd)]
        simp only [List.mem_cons, exists_eq_or_imp, List.not_mem_nil, false_or, ih]
        constructor
        · exact fun h => ⟨Or.inr h.1, h.2⟩
        · rintro ⟨rfl | h, hc⟩
          · exact absurd hd hc
          · exact ⟨h, hc⟩
      · rw [if_neg (by simpa using hd)]
        obtain ⟨first, rest, hpieces⟩ := List.exists_cons_of_ne_nil (List.splitOn_ne_nil mark text)
        rw [hpieces] at ih ⊢
        simp only [List.modifyHead_cons, List.mem_cons, exists_eq_or_imp] at ih ⊢
        rw [or_assoc, ih]
        constructor
        · rintro (rfl | h)
          · exact ⟨Or.inl rfl, hd⟩
          · exact ⟨Or.inr h.1, h.2⟩
        · rintro ⟨rfl | h, hc⟩
          · exact Or.inl rfl
          · exact Or.inr ⟨h, hc⟩

theorem not_mem_of_mem_splitOn {mark : α} {text piece : List α}
    (h : piece ∈ text.splitOn mark) : mark ∉ piece :=
  fun hmark => (exists_mem_splitOn.mp ⟨piece, h, hmark⟩).2 rfl

theorem forall_splitOn_eq_nil {mark : α} {text : List α} :
    (∀ piece ∈ text.splitOn mark, piece = []) ↔ ∀ c ∈ text, c = mark := by
  constructor
  · intro h c hc
    by_contra hmark
    obtain ⟨piece, hpiece, hmem⟩ := exists_mem_splitOn.mpr ⟨hc, hmark⟩
    rw [h piece hpiece] at hmem
    exact List.not_mem_nil hmem
  · intro h piece hpiece
    refine List.eq_nil_iff_forall_not_mem.mpr fun c hc => ?_
    obtain ⟨htext, hmark⟩ := exists_mem_splitOn.mp ⟨piece, hpiece, hc⟩
    exact hmark (h c htext)

end Pieces

/-! ## Lower case -/

theorem toLower_of_other {c : Char} (hc : 128 ≤ c.toNat) : c.toLower = c := by
  refine dif_neg fun h => ?_
  have hle : c.toNat ≤ 90 := h.2
  omega

theorem eq_of_toLower_eq {c d : Char} (hd : d.toNat < 97) (h : c.toLower = d) : c = d := by
  by_cases hupper : c.val ≥ 'A'.val ∧ c.val ≤ 'Z'.val
  · have hlower : c.toLower.toNat = (c.val + 32).toNat := congrArg Char.toNat (dif_pos hupper)
    have hval : (c.val + 32).toNat = d.toNat := by rw [← hlower, h]
    have hlow : 65 ≤ c.val.toNat := hupper.1
    have hhigh : c.val.toNat ≤ 90 := hupper.2
    rw [UInt32.toNat_add] at hval
    have h32 : (32 : UInt32).toNat = 32 := rfl
    omega
  · have hsame : c.toLower = c := dif_neg hupper
    rw [← hsame, h]

/-- The lower case of a character, with the text before it and after it.  The lower case of an
ASCII character is known.  That of another one begins with no ASCII character, but for two:
the Kelvin sign, and the letter I with a dot, where the dot follows. -/
structure LowerCase where
  lower : List Char → Char → List Char → List Char
  ascii : ∀ before c after, c.toNat < 128 → lower before c after = [c.toLower]
  other : ∀ before c after, 128 ≤ c.toNat →
    lower before c after = ['k'] ∨ lower before c after = ['i', '\u0307'] ∨
      ∃ d rest, lower before c after = d :: rest ∧ 128 ≤ d.toNat

namespace LowerCase

/-- Every character of a text, after those before it, in lower case. -/
def textAfter (m : LowerCase) (before : List Char) : List Char → List Char
  | [] => []
  | c :: after => m.lower before c after ++ textAfter m (before ++ [c]) after

def text (m : LowerCase) (s : List Char) : List Char := m.textAfter [] s

/-- The lower case of the ASCII characters, and the others as they are. -/
def asciiOnly : LowerCase where
  lower _ c _ := [c.toLower]
  ascii _ _ _ _ := rfl
  other _ c _ hc := Or.inr (Or.inr ⟨c, [], by rw [toLower_of_other hc], hc⟩)

/-- A word of ASCII letters is found at the beginning of the text in lower case only where it
is spelled out, in letters of either case. -/
theorem prefix_textAfter_iff (m : LowerCase) {word : List Char}
    (hword : ∀ c ∈ word, c.toNat < 128 ∧ c ≠ 'k') (hlast : word.getLast? ≠ some 'i')
    (before s : List Char) :
    word <+: m.textAfter before s ↔ word <+: s.map Char.toLower := by
  induction word generalizing before s with
  | nil => exact iff_of_true (List.nil_prefix) (List.nil_prefix)
  | cons a word ih =>
      obtain ⟨⟨hascii, hk⟩, hrest⟩ := List.forall_mem_cons.mp hword
      cases s with
      | nil => rfl
      | cons c after =>
          rw [textAfter, List.map_cons, List.cons_prefix_cons]
          by_cases hc : c.toNat < 128
          · have hlast' : word.getLast? ≠ some 'i' := by
              cases word with
              | nil => exact fun h => nomatch h
              | cons b word => rwa [List.getLast?_cons_cons] at hlast
            rw [m.ascii _ _ _ hc, List.singleton_append, List.cons_prefix_cons,
              ih hrest hlast']
          · rw [toLower_of_other (Nat.le_of_not_lt hc)]
            refine iff_of_false ?_ (fun h => hc (h.1 ▸ hascii))
            intro h
            rcases m.other before c after (Nat.le_of_not_lt hc) with hm | hm | ⟨d, rest, hm, hd⟩
            · rw [hm, List.singleton_append, List.cons_prefix_cons] at h
              exact hk h.1
            · rw [hm, List.cons_append, List.cons_prefix_cons] at h
              obtain ⟨rfl, h⟩ := h
              cases word with
              | nil => exact hlast rfl
              | cons b word =>
                  rw [List.singleton_append, List.cons_prefix_cons] at h
                  have hdot : '\u0307'.toNat < 128 := h.1 ▸ (hrest b List.mem_cons_self).1
                  revert hdot
                  decide
            · rw [hm, List.cons_append, List.cons_prefix_cons] at h
              rw [← h.1] at hd
              omega

end LowerCase

end Text
