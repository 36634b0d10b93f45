/-!
# GridTick.Number.Power — powers of two and of ten

The powers that sizes of words, significands and decimal places are counted in.
-/

namespace GridTick

abbrev twoTo (n : Nat) : Nat := Nat.pow 2 n

abbrev tenTo (n : Nat) : Nat := Nat.pow 10 n

end GridTick
