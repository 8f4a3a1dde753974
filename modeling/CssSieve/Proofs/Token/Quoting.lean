import CssSieve.Json.Lexeme
import CssSieve.Token.Text

/-!
# Strings read back

Whoever reads CSS text normalizes its line ends first and then consumes string tokens, in which a
backslash begins an escape and a line end breaks the string off. Read in this way, the text of a
string token is one string token again, whatever stands behind it, exactly when the string holds no
carriage return, form feed or NUL. The first two break the string off, and the third is replaced.
-/

namespace CssSieve

namespace CssText

open Json.Scanner (hexDigit?)

/-! ## Reading strings -/

/-- Whether a character other than a line feed is a line end for the reader. -/
def endsLine (c : Char) : Bool := c == '\r' || c == '\x0c'

/-- A character of the input as the reader sees it. -/
def normalChar (c : Char) : Char :=
  if endsLine c then '\n' else if c = '\x00' then '\ufffd' else c

/-- The input as the reader sees it. A carriage return with the line feed behind it is one line
end. -/
def normalized : List Char → List Char
  | [] => []
  | '\r' :: '\n' :: cs => '\n' :: normalized cs
  | c :: cs => normalChar c :: normalized cs

def isHexDigit (c : Char) : Bool := (hexDigit? c).isSome

/-- The character that hexadecimal digits stand for, unless it is NUL or no character. -/
def charOfDigits (digits : List Char) : Char :=
  let n := digits.foldl (fun n d => 16 * n + (hexDigit? d).getD 0) 0
  if n ≠ 0 ∧ n.isValidChar then Char.ofNat n else '\ufffd'

/-- What is left behind the blank that ends an escape, if there is one. -/
def behindBlank : List Char → List Char
  | c :: cs => if c = ' ' ∨ c = '\t' ∨ c = '\n' then cs else c :: cs
  | [] => []

/-- The character that an escape stands for and what is left behind it, from its first character:
up to six hexadecimal digits with one blank behind them, or any other character. -/
def escaped (c : Char) (cs : List Char) : Char × List Char :=
  if isHexDigit c then
    let digits := ((c :: cs).take 6).takeWhile isHexDigit
    (charOfDigits digits, behindBlank ((c :: cs).drop digits.length))
  else (c, cs)

theorem length_behindBlank_le (cs : List Char) : (behindBlank cs).length ≤ cs.length := by
  cases cs with
  | nil => exact Nat.le_refl 0
  | cons c cs =>
      rw [behindBlank]
      split <;> simp

/-- What a backslash adds to a string, and what is left behind it: nothing at the end of the input
or before a line end, which it takes away, else the character that is escaped. -/
def behindBackslash : List Char → List Char × List Char
  | [] => ([], [])
  | c :: cs => if c = '\n' then ([], cs) else ([(escaped c cs).1], (escaped c cs).2)

theorem length_behindBackslash_le (cs : List Char) :
    (behindBackslash cs).2.length ≤ cs.length := by
  cases cs with
  | nil => exact Nat.le_refl 0
  | cons c cs =>
      rw [behindBackslash]
      split
      next => exact Nat.le_succ _
      next =>
        rw [escaped]
        split
        next =>
          have le := length_behindBlank_le
            ((c :: cs).drop (((c :: cs).take 6).takeWhile isHexDigit).length)
          rw [List.length_drop] at le
          exact Nat.le_trans le (Nat.sub_le _ _)
        next => exact Nat.le_succ _

/-- The string token at the front of the input behind its quotation mark, and what is left. What has
been read of it is given. The end of the input ends the string; a line end breaks it off. -/
def stringFrom (ending : Char) : (read input : List Char) → Token × List Char
  | read, [] => (.string (String.ofList read), [])
  | read, c :: cs =>
    if c = ending then (.string (String.ofList read), cs)
    else if c = '\n' then (.badString, c :: cs)
    else if c = '\\' then stringFrom ending (read ++ (behindBackslash cs).1) (behindBackslash cs).2
    else stringFrom ending (read ++ [c]) cs
termination_by _ input => input.length
decreasing_by
  · exact Nat.lt_succ_of_le (length_behindBackslash_le cs)
  · exact Nat.lt_succ_self _

/-- The string token at the front of the input, if a quotation mark stands there. -/
def stringToken? : List Char → Option (Token × List Char)
  | [] => none
  | c :: cs => if c = '"' ∨ c = '\x27' then some (stringFrom c [] cs) else none

/-! ## Reading what was quoted -/

theorem endsLine_iff {c : Char} : endsLine c ↔ c = '\r' ∨ c = '\x0c' := by
  simp [endsLine]

theorem normalChar_of_not_endsLine {c : Char} (plain : ¬endsLine c) :
    normalChar c = if c = '\x00' then '\ufffd' else c :=
  if_neg plain

theorem normalChar_eq_self_iff {c : Char} (plain : ¬endsLine c) :
    normalChar c = c ↔ c ≠ '\x00' := by
  rw [normalChar_of_not_endsLine plain]
  split
  next zero => simp [zero]
  next other => simp [other]

theorem normalized_cons {c : Char} (h : c ≠ '\r') (cs : List Char) :
    normalized (c :: cs) = normalChar c :: normalized cs := by
  rw [normalized]
  rintro _ rfl
  exact absurd rfl h

/-- A line end is a line feed for the reader, alone or with the line feed behind it. -/
theorem exists_normalized_of_endsLine {c : Char} (h : endsLine c) (cs : List Char) :
    ∃ behind, normalized (c :: cs) = '\n' :: behind := by
  rcases endsLine_iff.mp h with rfl | rfl
  · cases cs with
    | nil => exact ⟨[], rfl⟩
    | cons d cs =>
        by_cases feed : d = '\n'
        · subst feed
          exact ⟨_, rfl⟩
        · refine ⟨normalized (d :: cs), ?_⟩
          rw [normalized]
          · rfl
          · rintro _ - eq
            exact feed (List.cons.inj eq).1
  · exact ⟨_, rfl⟩

theorem stringFrom_plain {c : Char} (quotes : c ≠ '"') (feeds : c ≠ '\n') (escapes : c ≠ '\\')
    (read rest : List Char) :
    stringFrom '"' read (c :: rest) = stringFrom '"' (read ++ [c]) rest := by
  rw [stringFrom, if_neg quotes, if_neg feeds, if_neg escapes]

theorem stringFrom_backslash (read rest : List Char) :
    stringFrom '"' read ('\\' :: rest) =
      stringFrom '"' (read ++ (behindBackslash rest).1) (behindBackslash rest).2 := by
  rw [stringFrom, if_neg (by decide), if_neg (by decide), if_pos rfl]

/-- The escape of a line feed ends at the blank, whatever digits stand behind that. -/
theorem escaped_feed (rest : List Char) : escaped 'a' (' ' :: rest) = ('\n', rest) := by
  simp [escaped, isHexDigit, hexDigit?, charOfDigits, behindBlank]

theorem quoteChar_of_plain {c : Char} (mark : ¬(c = '"' ∨ c = '\\')) (feed : c ≠ '\n') :
    quoteChar c = [c] := by
  rw [not_or] at mark
  simp [quoteChar, mark]

theorem stringFrom_character {c : Char} (plain : ¬endsLine c) (read rest : List Char) :
    stringFrom '"' read (normalized (quoteChar c ++ rest)) =
      stringFrom '"' (read ++ [normalChar c]) (normalized rest) := by
  have no_return : c ≠ '\r' := fun h => plain (endsLine_iff.mpr (Or.inl h))
  by_cases mark : c = '"' ∨ c = '\\'
  · have written : normalized (quoteChar c ++ rest) = '\\' :: c :: normalized rest := by
      rcases mark with rfl | rfl <;> rfl
    have stands : behindBackslash (c :: normalized rest) = ([normalChar c], normalized rest) := by
      rcases mark with rfl | rfl <;> rfl
    rw [written, stringFrom_backslash, stands]
  · by_cases feed : c = '\n'
    · subst feed
      have written :
          normalized (quoteChar '\n' ++ rest) = '\\' :: 'a' :: ' ' :: normalized rest := rfl
      rw [written, stringFrom_backslash, behindBackslash, if_neg (by decide), escaped_feed]
      rfl
    · rw [quoteChar_of_plain mark feed, List.singleton_append, normalized_cons no_return,
        normalChar_of_not_endsLine plain]
      rw [not_or] at mark
      split
      next => exact stringFrom_plain (by decide) (by decide) (by decide) read _
      next => exact stringFrom_plain mark.1 feed mark.2 read _

theorem stringFrom_lineEnd {c : Char} (h : endsLine c) (read rest : List Char) :
    (stringFrom '"' read (normalized (quoteChar c ++ rest))).1 = .badString := by
  have written : quoteChar c = [c] := by rcases endsLine_iff.mp h with rfl | rfl <;> rfl
  obtain ⟨behind, feeds⟩ := exists_normalized_of_endsLine h rest
  rw [written, List.singleton_append, feeds, stringFrom, if_neg (by decide), if_pos rfl]

theorem stringFrom_quoted {cs : List Char} (plain : ∀ c ∈ cs, ¬endsLine c) (read rest : List Char) :
    stringFrom '"' read (normalized (cs.flatMap quoteChar ++ '"' :: rest)) =
      (.string (String.ofList (read ++ cs.map normalChar)), normalized rest) := by
  induction cs generalizing read with
  | nil =>
      rw [List.flatMap_nil, List.nil_append, List.map_nil, List.append_nil,
        normalized_cons (by decide)]
      exact stringFrom.eq_2 .. |>.trans (if_pos rfl)
  | cons c cs ih =>
      rw [List.flatMap_cons, List.append_assoc,
        stringFrom_character (plain c List.mem_cons_self),
        ih (fun d hd => plain d (List.mem_cons_of_mem c hd)), List.append_assoc]
      rfl

theorem stringFrom_broken {cs : List Char} (broken : ∃ c ∈ cs, endsLine c) (read rest : List Char) :
    (stringFrom '"' read (normalized (cs.flatMap quoteChar ++ rest))).1 = .badString := by
  induction cs generalizing read with
  | nil => simp at broken
  | cons c cs ih =>
      rw [List.flatMap_cons, List.append_assoc]
      by_cases h : endsLine c
      · exact stringFrom_lineEnd h read _
      · rw [stringFrom_character h]
        obtain ⟨d, hd, broken⟩ := broken
        rcases List.mem_cons.mp hd with rfl | hd
        · exact absurd broken h
        · exact ih ⟨d, hd, broken⟩ _

end CssText

open CssText

/-- **A string stays in its quotation marks** exactly when it holds no carriage return, form feed or
NUL: its text is then read as this one string token, and what stands behind it is left. -/
theorem stringToken?_css_iff (v : String) (rest : List Char) :
    stringToken? (normalized ((Token.string v).css.toList ++ rest)) =
        some (.string v, normalized rest) ↔
      ∀ c ∈ v.toList, c ≠ '\r' ∧ c ≠ '\x0c' ∧ c ≠ '\x00' := by
  have written : normalized ((Token.string v).css.toList ++ rest) =
      '"' :: normalized (v.toList.flatMap quoteChar ++ '"' :: rest) := by
    rw [Token.css, quote, String.toList_ofList, List.cons_append, List.append_assoc,
      normalized_cons (by decide)]
    rfl
  rw [written, stringToken?, if_pos (Or.inl rfl), Option.some_inj]
  by_cases broken : ∃ c ∈ v.toList, endsLine c
  · constructor
    · intro h
      have broken_off := stringFrom_broken broken [] ('"' :: rest)
      rw [h] at broken_off
      cases broken_off
    · intro free
      obtain ⟨c, hc, ends⟩ := broken
      exact absurd (endsLine_iff.mp ends) (not_or.mpr ⟨(free c hc).1, (free c hc).2.1⟩)
  · have plain : ∀ c ∈ v.toList, ¬endsLine c := fun c hc ends => broken ⟨c, hc, ends⟩
    have same : v.toList.map normalChar = v.toList ↔ ∀ c ∈ v.toList, normalChar c = c := by
      simpa using List.map_inj_left (l := v.toList) (f := normalChar) (g := id)
    rw [stringFrom_quoted plain, List.nil_append, Prod.mk.injEq, Token.string.injEq,
      ← String.toList_inj, String.toList_ofList, same]
    constructor
    · rintro ⟨stays, -⟩ c hc
      have other := not_or.mp (mt endsLine_iff.mpr (plain c hc))
      exact ⟨other.1, other.2, (normalChar_eq_self_iff (plain c hc)).mp (stays c hc)⟩
    · intro free
      exact ⟨fun c hc => (normalChar_eq_self_iff (plain c hc)).mpr (free c hc).2.2, rfl⟩

/-- What a string holds behind a form feed or a carriage return is read as CSS text of its own, here
the end of the rule that the string stands in and another rule. -/
theorem string_breaks_off :
    let written (v : String) : List Char := (Token.string v).css.toList
    stringToken? (normalized (written "\x0c\x7dp\x7b")) =
        some (.badString, ['\n', '\x7d', 'p', '\x7b', '"']) ∧
      stringToken? (normalized (written "\r")) = some (.badString, ['\n', '"']) ∧
      stringToken? (normalized (written "\x00")) = some (.string "\ufffd", []) := by
  decide +kernel

end CssSieve
