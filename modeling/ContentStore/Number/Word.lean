/-!
# Ranges of words

The least and the largest whole numbers that fit words of 32 and 64 bits, with
and without a sign.
-/

namespace ContentStore.Number

def leastInt32 : Int := -2147483648

def largestInt32 : Int := 2147483647

def leastInt64 : Int := -9223372036854775808

def largestInt64 : Int := 9223372036854775807

def largestNat64 : Nat := 18446744073709551615

/-- A whole number that fits 64 bits with a sign. -/
def isInt64 (n : Int) : Bool := decide (leastInt64 ≤ n ∧ n ≤ largestInt64)

/-- A whole number that fits 64 bits with a sign or without one. -/
def fitsWord (n : Int) : Bool := decide (leastInt64 ≤ n ∧ n ≤ largestNat64)

end ContentStore.Number
