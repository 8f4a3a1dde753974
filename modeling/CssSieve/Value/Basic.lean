import CssSieve.Token.Basic

/-!
# Component values

A component value is a token, or a function or bracketed block with component values inside.
Parsed blocks are opened by `[`, `(` or a brace; a value built by hand may name any character.
-/

namespace CssSieve

inductive Value where
  | token (token : Token)
  | function (name : String) (arguments : List Value)
  | block (opener : Char) (contents : List Value)

instance : Inhabited Value := ⟨.token .eof⟩

/-- The character that closes a block: each bracket has its counterpart, and everything else is
closed like a brace. -/
def closerOf : Char → Char
  | '[' => ']'
  | '(' => ')'
  | _ => '\x7d'

namespace Value

/-! ## Equality -/

mutual

def decEq : (a b : Value) → Decidable (a = b)
  | token s, token t =>
      if h : s = t then isTrue (by rw [h]) else isFalse (by simp [h])
  | function n as, function m bs =>
      if h : n = m then
        match decEqList as bs with
        | isTrue h' => isTrue (by rw [h, h'])
        | isFalse h' => isFalse (by simp [h'])
      else isFalse (by simp [h])
  | block c as, block d bs =>
      if h : c = d then
        match decEqList as bs with
        | isTrue h' => isTrue (by rw [h, h'])
        | isFalse h' => isFalse (by simp [h'])
      else isFalse (by simp [h])
  | token _, function _ _ | token _, block _ _ | function _ _, token _
  | function _ _, block _ _ | block _ _, token _ | block _ _, function _ _ => isFalse (by simp)

def decEqList : (as bs : List Value) → Decidable (as = bs)
  | [], [] => isTrue rfl
  | [], _ :: _ | _ :: _, [] => isFalse (by simp)
  | a :: as, b :: bs =>
      match decEq a b, decEqList as bs with
      | isTrue h, isTrue h' => isTrue (by rw [h, h'])
      | isFalse h, _ => isFalse (by simp [h])
      | _, isFalse h => isFalse (by simp [h])

end

instance : DecidableEq Value := decEq

/-! ## Views -/

/-- The token, if the value is one. -/
def token? : Value → Option Token
  | token t => some t
  | _ => none

def isWhitespace : Value → Bool
  | token .whitespace => true
  | _ => false

def isComma : Value → Bool
  | token .comma => true
  | _ => false

/-! ## Depth -/

mutual

/-- How deeply functions and blocks nest: zero for a token. -/
def depth : Value → Nat
  | token _ => 0
  | function _ vs | block _ vs => 1 + depthAll vs

/-- The greatest depth in a list, zero for the empty one. -/
def depthAll : List Value → Nat
  | [] => 0
  | v :: vs => max v.depth (depthAll vs)

end

theorem depthAll_le_iff {vs : List Value} {n : Nat} : depthAll vs ≤ n ↔ ∀ v ∈ vs, v.depth ≤ n := by
  induction vs with
  | nil => simp [depthAll]
  | cons v vs ih => rw [depthAll, Nat.max_le, ih, List.forall_mem_cons]

theorem depth_le_of_token {v : Value} (h : v.token?.isSome) (n : Nat) : v.depth ≤ n := by
  cases v <;> first | exact Nat.zero_le n | cases h

/-! ## White space at the ends of a list -/

/-- The list without the white space at its end. -/
def trimEnd (vs : List Value) : List Value := (vs.reverse.dropWhile isWhitespace).reverse

/-- The list without the white space at both ends. -/
def trim (vs : List Value) : List Value := (trimEnd vs).dropWhile isWhitespace

end Value

end CssSieve
