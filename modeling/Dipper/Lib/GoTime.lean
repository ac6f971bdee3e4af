import Mathlib.Data.Nat.Digits.Defs

/-!
# Go's durations as text

`time.Duration.String` of Go's standard library: a count of nanoseconds written as hours,
minutes and seconds with a decimal fraction (`72h3m0.5s`), or, below one second, in the largest
of milli-, micro- and nanoseconds that keeps a non-zero leading digit (`1.5ms`). `fmtFrac` and
`fmtInt` are its two helpers; Go fills a buffer from the right, the model appends in the same
order.
-/

namespace GoTime

def Nanosecond : ℕ := 1
def Microsecond : ℕ := 1000 * Nanosecond
def Millisecond : ℕ := 1000 * Microsecond
def Second : ℕ := 1000 * Millisecond
def Minute : ℕ := 60 * Second
def Hour : ℕ := 60 * Minute

/-- The loop of `fmtFrac`: `prec` more digits to take from the right of `v`; a digit is kept
once a non-zero one has been seen. -/
def fmtFrac.loop : ℕ → ℕ → Bool → List Char → List Char × ℕ
  | 0, v, print, buf => (if print then '.' :: buf else buf, v)
  | i + 1, v, print, buf =>
    let digit := v % 10
    let print := print || digit != 0
    fmtFrac.loop i (v / 10) print (if print then Nat.digitChar digit :: buf else buf)

/-- `fmtFrac`: the fraction `v / 10^prec` as `.ddd`, its trailing zeros and then the point
omitted, and the integer part `v / 10^prec`. -/
def fmtFrac (v prec : ℕ) : List Char × ℕ := fmtFrac.loop prec v false []

/-- `fmtInt`: the decimal digits of `v`. -/
def fmtInt (v : ℕ) : List Char := Nat.toDigits 10 v

def Duration.String (d : ℤ) : String :=
  let u := d.natAbs
  let sign := if d < 0 then ['-'] else []
  if u = 0 then "0s"
  else if u < Second then
    -- below one second: the unit that gives a non-zero leading digit
    let (unit, prec) :=
      if u < Microsecond then (['n'], 0) else if u < Millisecond then (['µ'], 3) else (['m'], 6)
    let (frac, u) := fmtFrac u prec
    .ofList (sign ++ fmtInt u ++ frac ++ unit ++ ['s'])
  else
    let (frac, u) := fmtFrac u 9
    let secs := fmtInt (u % 60) ++ frac ++ ['s']
    let u := u / 60
    if u = 0 then .ofList (sign ++ secs)
    else
      let mins := fmtInt (u % 60) ++ ['m'] ++ secs
      let u := u / 60
      if u = 0 then .ofList (sign ++ mins) else .ofList (sign ++ fmtInt u ++ ['h'] ++ mins)

example : Duration.String (36 * Hour) = "36h0m0s" := by decide
example : Duration.String (Minute + Second / 2) = "1m0.5s" := by decide
example : Duration.String (-1500) = "-1.5µs" := by decide

end GoTime
