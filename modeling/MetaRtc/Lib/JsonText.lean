import Mathlib.Data.List.Basic
import Mathlib.Tactic.Common

/-! # Strings in JSON texts

What stands between the quotes, piece by piece, and what it stands for. -/
namespace JsonText

def isWs (b : UInt8) : Bool := b == 32 || b == 9 || b == 10 || b == 13

/-- A byte that stands for itself: no control character, quote or backslash. -/
def Literal (b : UInt8) : Prop := 32 ≤ b ∧ b ≠ 34 ∧ b ≠ 92

instance (b : UInt8) : Decidable (Literal b) := inferInstanceAs (Decidable (_ ∧ _))

inductive Escape where
  | quote | backslash | slash | backspace | formFeed | lineFeed | carriageReturn | tab
  deriving DecidableEq

/-- What follows the backslash. -/
def Escape.letter : Escape → UInt8
  | quote => 34
  | backslash => 92
  | slash => 47
  | backspace => 98
  | formFeed => 102
  | lineFeed => 110
  | carriageReturn => 114
  | tab => 116

def Escape.value : Escape → UInt8
  | quote => 34
  | backslash => 92
  | slash => 47
  | backspace => 8
  | formFeed => 12
  | lineFeed => 10
  | carriageReturn => 13
  | tab => 9

def isHex (b : UInt8) : Bool := 48 ≤ b && b ≤ 57 || 65 ≤ b && b ≤ 70 || 97 ≤ b && b ≤ 102

/-- Four digits stand for three bytes at most. Of a pair of surrogates, which stands for four, each
has its share. -/
structure Digits where
  digits : List UInt8
  value : List UInt8
  four : digits.length = 4
  hex : ∀ d ∈ digits, isHex d = true
  short : value.length ≤ 3

inductive Segment where
  | plain (b : UInt8) (h : Literal b)
  | escape (e : Escape)
  | unicode (d : Digits)

namespace Segment

def raw : Segment → List UInt8
  | plain b _ => [b]
  | escape e => [92, e.letter]
  | unicode d => 92 :: 117 :: d.digits

def value : Segment → List UInt8
  | plain b _ => [b]
  | escape e => [e.value]
  | unicode d => d.value

end Segment

/-- The text between the quotes. -/
def raw (ps : List Segment) : List UInt8 := ps.flatMap Segment.raw

def value (ps : List Segment) : List UInt8 := ps.flatMap Segment.value

/-- A text that needs no escape. -/
def ofPlain (t : List UInt8) (h : ∀ b ∈ t, Literal b) : List Segment := t.pmap Segment.plain h

@[simp] theorem raw_nil : raw [] = [] := rfl
@[simp] theorem raw_cons (p : Segment) (ps : List Segment) : raw (p :: ps) = p.raw ++ raw ps := rfl
@[simp] theorem value_nil : value [] = [] := rfl
@[simp] theorem value_cons (p : Segment) (ps : List Segment) :
    value (p :: ps) = p.value ++ value ps := rfl

theorem raw_append (ps qs : List Segment) : raw (ps ++ qs) = raw ps ++ raw qs :=
  List.flatMap_append

theorem value_append (ps qs : List Segment) : value (ps ++ qs) = value ps ++ value qs :=
  List.flatMap_append

theorem isHex_range {b : UInt8} (h : isHex b = true) : 48 ≤ b.toNat ∧ b.toNat ≤ 102 ∧ b ≠ 92 := by
  simp only [isHex, Bool.or_eq_true, Bool.and_eq_true, decide_eq_true_eq, UInt8.le_iff_toNat_le,
    UInt8.reduceToNat, ne_eq, ← UInt8.toNat_inj] at h ⊢
  omega

end JsonText
