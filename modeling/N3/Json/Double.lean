/-!
# Doubles as decimals

A decimal is rounded to the nearest number `c * 2 ^ q` with at most 53 bits in `c`, a tie to the even `c`. That
number is shown by the shortest decimal that rounds back to it, and by the nearest of those. All steps are exact:
a quotient of natural numbers stands for every real number on the way.
-/

set_option autoImplicit false

namespace N3.Double

structure Ratio where
  num : Nat
  den : Nat

def Ratio.scale (r : Ratio) (b : Nat) (e : Int) : Ratio :=
  if 0 ≤ e then ⟨r.num * Nat.pow b e.toNat, r.den⟩ else ⟨r.num, r.den * Nat.pow b (-e).toNat⟩

def Ratio.le (r s : Ratio) : Bool := r.num * s.den ≤ s.num * r.den

def Ratio.lt (r s : Ratio) : Bool := r.num * s.den < s.num * r.den

/-- The largest `k` with `b ^ k` at most `r`, searched upwards from `k` for `steps` steps. -/
def Ratio.logFrom (r : Ratio) (b : Nat) : Nat → Int → Int
  | 0, k => k
  | steps + 1, k => if Ratio.le (Ratio.scale ⟨1, 1⟩ b (k + 1)) r then r.logFrom b steps (k + 1) else k

def Ratio.log2 (r : Ratio) : Int := r.logFrom 2 2 ((r.num.log2 : Int) - r.den.log2 - 1)

/-- The largest `k` with `10 ^ k` at most `r`; the logarithm to base two is close to ten thirds of it. -/
def Ratio.log10 (r : Ratio) : Int := r.logFrom 10 40 (r.log2 * 3 / 10 - 20)

/-- The nearest natural number, a tie to the even one. -/
def Ratio.round (r : Ratio) : Nat :=
  let f := r.num / r.den
  let twice := 2 * (r.num % r.den)
  if r.den < twice || (twice == r.den && f % 2 == 1) then f + 1 else f

/-- The smallest significand that takes all bits of a double. -/
def fullSignificand : Nat := 0x10000000000000

/-- The significand and exponent of the double nearest to a positive quotient, if it is not too large. -/
def nearest? (r : Ratio) : Option (Nat × Int) :=
  let q := max (-1074) (r.log2 - 52)
  let c := (r.scale 2 (-q)).round
  let (c, q) := if c = 2 * fullSignificand then (fullSignificand, q + 1) else (c, q)
  if 971 < q then none else some (c, q)

/-- The ends of the interval that rounds to a double. -/
def interval (c : Nat) (q : Int) : Ratio × Ratio :=
  let below := if c = fullSignificand ∧ -1074 < q then 4 * c - 1 else 4 * c - 2
  (Ratio.scale ⟨below, 1⟩ 2 (q - 2), Ratio.scale ⟨4 * c + 2, 1⟩ 2 (q - 2))

/-- The candidate with `n` digits: of the two neighbours of the double on that grid, the nearest in its interval. -/
def candidate? (c : Nat) (q : Int) (n : Nat) : Option (Nat × Int) :=
  let v := Ratio.scale ⟨c, 1⟩ 2 q
  let (low, high) := interval c q
  let s := v.log10 - n + 1
  let scaled := v.scale 10 (-s)
  let f := scaled.num / scaled.den
  let inside (d : Nat) : Bool :=
    let x := Ratio.scale ⟨d, 1⟩ 10 s
    if c % 2 = 0 then low.le x && x.le high else low.lt x && x.lt high
  let near := scaled.round
  let far := if near = f then f + 1 else f
  if inside near then some (near, s) else if inside far then some (far, s) else none

def shortest (c : Nat) (q : Int) : Nat × Int :=
  ((List.range 17).findSome? fun n => candidate? c q (n + 1)).getD (c, q)

def trim : Nat → Nat × Int → Nat × Int
  | 0, d => d
  | fuel + 1, (m, e) => if m ≠ 0 ∧ m % 10 = 0 then trim fuel (m / 10, e + 1) else (m, e)

/-- The shortest decimal of the double nearest to `m * 10 ^ e`, if there is one. Exponents far outside the range of
doubles need no arithmetic. -/
def ofDecimal? (m : Nat) (e : Int) : Option (Nat × Int) :=
  let size : Int := (toString m).length + e
  if m = 0 ∨ size < -400 then some (0, 0)
  else if 400 < size then none
  else do
    let (c, q) ← nearest? (Ratio.scale ⟨m, 1⟩ 10 e)
    if c = 0 then some (0, 0) else some (trim 20 (shortest c q))

end N3.Double
