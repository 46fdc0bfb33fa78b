/-! # Machine words

    Stored numbers have the ranges of machine words, and arithmetic on them
    stops at the ends of those ranges.
-/

namespace FlatStore.Word

/-- Unsigned numbers of 64 bits are below 2⁶⁴. -/
abbrev size64 : Nat := 0x10000000000000000

/-- Signed numbers of 64 bits are below 2⁶³, and not below its negative. -/
abbrev half64 : Nat := 0x8000000000000000

/-- Signed numbers of 32 bits are below 2³¹, and not below its negative. -/
abbrev half32 : Nat := 0x80000000

end FlatStore.Word
