import Mathlib.Tactic

/-! Floating-point arithmetic without rounding: the rationals, and what division by zero makes of
them. A zero counts as positive. -/

namespace GreenBag.Doubles

inductive Double
  | num (q : ℚ)
  | inf (negative : Bool)
  | nan
  deriving DecidableEq, Repr

namespace Double

def ofInt (n : ℤ) : Double := num n

def neg : Double → Double
  | num q => num (-q)
  | inf s => inf (!s)
  | nan => nan

def add : Double → Double → Double
  | num p, num q => num (p + q)
  | num _, inf s => inf s
  | inf s, num _ => inf s
  | inf s, inf t => if s = t then inf s else nan
  | _, _ => nan

def sub (x y : Double) : Double := x.add y.neg

def mul : Double → Double → Double
  | num p, num q => num (p * q)
  | num p, inf s => if p = 0 then nan else inf (s != decide (p < 0))
  | inf s, num q => if q = 0 then nan else inf (s != decide (q < 0))
  | inf s, inf t => inf (s != t)
  | _, _ => nan

def div : Double → Double → Double
  | num p, num q => if q = 0 then if p = 0 then nan else inf (decide (p < 0)) else num (p / q)
  | num _, inf _ => num 0
  | inf s, num q => inf (s != decide (q < 0))
  | _, _ => nan

/-- Nothing compares with a NaN. -/
def lt : Double → Double → Bool
  | num p, num q => p < q
  | num _, inf s => !s
  | inf s, num _ => s
  | inf s, inf t => s && !t
  | _, _ => false

def le : Double → Double → Bool
  | num p, num q => p ≤ q
  | num _, inf s => !s
  | inf s, num _ => s
  | inf s, inf t => s || !t
  | _, _ => false

end Double

end GreenBag.Doubles
