import Casewise.Text.Boundaries

/-!
Upper, lower, title and folded case of Unicode 14.0. Simple mappings shift runs of characters by a
distance; the others are listed with all the characters they give. A capital sigma at the end of a word
has a lower case of its own.
-/

namespace Casewise.Text

/-- Every `step`-th character from `first` to `last` moves by `shift`. -/
structure Run where
  first : Nat
  last : Nat
  step : Nat
  shift : Int

namespace Run

def shifted (r : Run) (n : Nat) : Nat := ((n : Int) + r.shift).toNat

def move? (r : Run) (n : Nat) : Option Nat :=
  if r.first ≤ n ∧ n ≤ r.last ∧ (n - r.first) % r.step = 0 then some (r.shifted n) else none

def back (r : Run) : Run := ⟨r.shifted r.first, r.shifted r.last, r.step, -r.shift⟩

def ofShifts (table : List (Nat × Nat × Int)) : List Run :=
  table.map fun (first, last, shift) => ⟨first, last, 1, shift⟩

end Run

def alternating : List (Nat × Nat) := [
    (0x100, 0x12e), (0x132, 0x136), (0x139, 0x147), (0x14a, 0x176), (0x179, 0x17d), (0x182, 0x184), (0x187, 0x187),
    (0x18b, 0x18b), (0x191, 0x191), (0x198, 0x198), (0x1a0, 0x1a4), (0x1a7, 0x1a7), (0x1ac, 0x1ac), (0x1af, 0x1af),
    (0x1b3, 0x1b5), (0x1b8, 0x1b8), (0x1bc, 0x1bc), (0x1cd, 0x1db), (0x1de, 0x1ee), (0x1f4, 0x1f4), (0x1f8, 0x21e),
    (0x222, 0x232), (0x23b, 0x23b), (0x241, 0x241), (0x246, 0x24e), (0x370, 0x372), (0x376, 0x376), (0x3d8, 0x3ee),
    (0x3f7, 0x3f7), (0x3fa, 0x3fa), (0x460, 0x480), (0x48a, 0x4be), (0x4c1, 0x4cd), (0x4d0, 0x52e), (0x1e00, 0x1e94),
    (0x1ea0, 0x1efe), (0x2183, 0x2183), (0x2c60, 0x2c60), (0x2c67, 0x2c6b), (0x2c72, 0x2c72), (0x2c75, 0x2c75),
    (0x2c80, 0x2ce2), (0x2ceb, 0x2ced), (0x2cf2, 0x2cf2), (0xa640, 0xa66c), (0xa680, 0xa69a), (0xa722, 0xa72e),
    (0xa732, 0xa76e), (0xa779, 0xa77b), (0xa77e, 0xa786), (0xa78b, 0xa78b), (0xa790, 0xa792), (0xa796, 0xa7a8),
    (0xa7b4, 0xa7c2), (0xa7c7, 0xa7c9), (0xa7d0, 0xa7d0), (0xa7d6, 0xa7d8), (0xa7f5, 0xa7f5)]

def casePairs : List Run :=
  (alternating.map fun (first, last) => ⟨first, last, 2, 1⟩) ++ ⟨0x1f59, 0x1f5f, 2, -8⟩ :: Run.ofShifts [
    (0x41, 0x5a, 32), (0xc0, 0xd6, 32), (0xd8, 0xde, 32), (0x178, 0x178, -121), (0x181, 0x181, 210),
    (0x186, 0x186, 206), (0x189, 0x18a, 205), (0x18e, 0x18e, 79), (0x18f, 0x18f, 202), (0x190, 0x190, 203),
    (0x193, 0x193, 205), (0x194, 0x194, 207), (0x196, 0x196, 211), (0x197, 0x197, 209), (0x19c, 0x19c, 211),
    (0x19d, 0x19d, 213), (0x19f, 0x19f, 214), (0x1a6, 0x1a6, 218), (0x1a9, 0x1a9, 218), (0x1ae, 0x1ae, 218),
    (0x1b1, 0x1b2, 217), (0x1b7, 0x1b7, 219), (0x1c4, 0x1c4, 2), (0x1c7, 0x1c7, 2), (0x1ca, 0x1ca, 2),
    (0x1f1, 0x1f1, 2), (0x1f6, 0x1f6, -97), (0x1f7, 0x1f7, -56), (0x220, 0x220, -130), (0x23a, 0x23a, 10795),
    (0x23d, 0x23d, -163), (0x23e, 0x23e, 10792), (0x243, 0x243, -195), (0x244, 0x244, 69), (0x245, 0x245, 71),
    (0x37f, 0x37f, 116), (0x386, 0x386, 38), (0x388, 0x38a, 37), (0x38c, 0x38c, 64), (0x38e, 0x38f, 63),
    (0x391, 0x3a1, 32), (0x3a3, 0x3ab, 32), (0x3cf, 0x3cf, 8), (0x3f9, 0x3f9, -7), (0x3fd, 0x3ff, -130),
    (0x400, 0x40f, 80), (0x410, 0x42f, 32), (0x4c0, 0x4c0, 15), (0x531, 0x556, 48), (0x10a0, 0x10c5, 7264),
    (0x10c7, 0x10c7, 7264), (0x10cd, 0x10cd, 7264), (0x13a0, 0x13ef, 38864), (0x13f0, 0x13f5, 8),
    (0x1c90, 0x1cba, -3008), (0x1cbd, 0x1cbf, -3008), (0x1f08, 0x1f0f, -8), (0x1f18, 0x1f1d, -8),
    (0x1f28, 0x1f2f, -8), (0x1f38, 0x1f3f, -8), (0x1f48, 0x1f4d, -8), (0x1f68, 0x1f6f, -8), (0x1fb8, 0x1fb9, -8),
    (0x1fba, 0x1fbb, -74), (0x1fc8, 0x1fcb, -86), (0x1fd8, 0x1fd9, -8), (0x1fda, 0x1fdb, -100), (0x1fe8, 0x1fe9, -8),
    (0x1fea, 0x1feb, -112), (0x1fec, 0x1fec, -7), (0x1ff8, 0x1ff9, -128), (0x1ffa, 0x1ffb, -126),
    (0x2132, 0x2132, 28), (0x2160, 0x216f, 16), (0x24b6, 0x24cf, 26), (0x2c00, 0x2c2f, 48), (0x2c62, 0x2c62, -10743),
    (0x2c63, 0x2c63, -3814), (0x2c64, 0x2c64, -10727), (0x2c6d, 0x2c6d, -10780), (0x2c6e, 0x2c6e, -10749),
    (0x2c6f, 0x2c6f, -10783), (0x2c70, 0x2c70, -10782), (0x2c7e, 0x2c7f, -10815), (0xa77d, 0xa77d, -35332),
    (0xa78d, 0xa78d, -42280), (0xa7aa, 0xa7aa, -42308), (0xa7ab, 0xa7ab, -42319), (0xa7ac, 0xa7ac, -42315),
    (0xa7ad, 0xa7ad, -42305), (0xa7ae, 0xa7ae, -42308), (0xa7b0, 0xa7b0, -42258), (0xa7b1, 0xa7b1, -42282),
    (0xa7b2, 0xa7b2, -42261), (0xa7b3, 0xa7b3, 928), (0xa7c4, 0xa7c4, -48), (0xa7c5, 0xa7c5, -42307),
    (0xa7c6, 0xa7c6, -35384), (0xff21, 0xff3a, 32), (0x10400, 0x10427, 40), (0x104b0, 0x104d3, 40),
    (0x10570, 0x1057a, 39), (0x1057c, 0x1058a, 39), (0x1058c, 0x10592, 39), (0x10594, 0x10595, 39),
    (0x10c80, 0x10cb2, 64), (0x118a0, 0x118bf, 32), (0x16e40, 0x16e5f, 32), (0x1e900, 0x1e921, 34)]

def lowerRuns : List Run := casePairs ++ Run.ofShifts [
    (0x1c5, 0x1c5, 1), (0x1c8, 0x1c8, 1), (0x1cb, 0x1cb, 1), (0x1f2, 0x1f2, 1), (0x3f4, 0x3f4, -60),
    (0x1e9e, 0x1e9e, -7615), (0x1f88, 0x1f8f, -8), (0x1f98, 0x1f9f, -8), (0x1fa8, 0x1faf, -8), (0x1fbc, 0x1fbc, -9),
    (0x1fcc, 0x1fcc, -9), (0x1ffc, 0x1ffc, -9), (0x2126, 0x2126, -7517), (0x212a, 0x212a, -8383),
    (0x212b, 0x212b, -8262)]

def lowerSpecial : List (Nat × List Nat) := [
    (0x130, [0x69, 0x307])]

def upperRuns : List Run := casePairs.map Run.back ++ Run.ofShifts [
    (0xb5, 0xb5, 743), (0x131, 0x131, -232), (0x17f, 0x17f, -300), (0x1c5, 0x1c5, -1), (0x1c8, 0x1c8, -1),
    (0x1cb, 0x1cb, -1), (0x1f2, 0x1f2, -1), (0x345, 0x345, 84), (0x3c2, 0x3c2, -31), (0x3d0, 0x3d0, -62),
    (0x3d1, 0x3d1, -57), (0x3d5, 0x3d5, -47), (0x3d6, 0x3d6, -54), (0x3f0, 0x3f0, -86), (0x3f1, 0x3f1, -80),
    (0x3f5, 0x3f5, -96), (0x1c80, 0x1c80, -6254), (0x1c81, 0x1c81, -6253), (0x1c82, 0x1c82, -6244),
    (0x1c83, 0x1c84, -6242), (0x1c85, 0x1c85, -6243), (0x1c86, 0x1c86, -6236), (0x1c87, 0x1c87, -6181),
    (0x1c88, 0x1c88, 35266), (0x1e9b, 0x1e9b, -59), (0x1fbe, 0x1fbe, -7205)]

def iotaRuns : List Run := Run.ofShifts [
    (0x1f80, 0x1f87, -120), (0x1f88, 0x1f8f, -128), (0x1f90, 0x1f97, -104), (0x1f98, 0x1f9f, -112),
    (0x1fa0, 0x1fa7, -56), (0x1fa8, 0x1faf, -64), (0x1fb2, 0x1fb2, 8), (0x1fb3, 0x1fb3, -7202),
    (0x1fb4, 0x1fb4, -7214), (0x1fbc, 0x1fbc, -7211), (0x1fc2, 0x1fc2, 8), (0x1fc3, 0x1fc3, -7212),
    (0x1fc4, 0x1fc4, -7227), (0x1fcc, 0x1fcc, -7221), (0x1ff2, 0x1ff2, 8), (0x1ff3, 0x1ff3, -7242),
    (0x1ff4, 0x1ff4, -7269), (0x1ffc, 0x1ffc, -7251)]

def upperSpecial : List (Nat × List Nat) := [
    (0xdf, [0x53, 0x53]), (0x149, [0x2bc, 0x4e]), (0x1f0, [0x4a, 0x30c]), (0x390, [0x399, 0x308, 0x301]),
    (0x3b0, [0x3a5, 0x308, 0x301]), (0x587, [0x535, 0x552]), (0x1e96, [0x48, 0x331]), (0x1e97, [0x54, 0x308]),
    (0x1e98, [0x57, 0x30a]), (0x1e99, [0x59, 0x30a]), (0x1e9a, [0x41, 0x2be]), (0x1f50, [0x3a5, 0x313]),
    (0x1f52, [0x3a5, 0x313, 0x300]), (0x1f54, [0x3a5, 0x313, 0x301]), (0x1f56, [0x3a5, 0x313, 0x342]),
    (0x1fb6, [0x391, 0x342]), (0x1fb7, [0x391, 0x342, 0x399]), (0x1fc6, [0x397, 0x342]),
    (0x1fc7, [0x397, 0x342, 0x399]), (0x1fd2, [0x399, 0x308, 0x300]), (0x1fd3, [0x399, 0x308, 0x301]),
    (0x1fd6, [0x399, 0x342]), (0x1fd7, [0x399, 0x308, 0x342]), (0x1fe2, [0x3a5, 0x308, 0x300]),
    (0x1fe3, [0x3a5, 0x308, 0x301]), (0x1fe4, [0x3a1, 0x313]), (0x1fe6, [0x3a5, 0x342]),
    (0x1fe7, [0x3a5, 0x308, 0x342]), (0x1ff6, [0x3a9, 0x342]), (0x1ff7, [0x3a9, 0x342, 0x399]),
    (0xfb00, [0x46, 0x46]), (0xfb01, [0x46, 0x49]), (0xfb02, [0x46, 0x4c]), (0xfb03, [0x46, 0x46, 0x49]),
    (0xfb04, [0x46, 0x46, 0x4c]), (0xfb05, [0x53, 0x54]), (0xfb06, [0x53, 0x54]), (0xfb13, [0x544, 0x546]),
    (0xfb14, [0x544, 0x535]), (0xfb15, [0x544, 0x53b]), (0xfb16, [0x54e, 0x546]), (0xfb17, [0x544, 0x53d])]

def titleRuns : List Run := Run.ofShifts [
    (0x1c4, 0x1c4, 1), (0x1c5, 0x1c5, 0), (0x1c6, 0x1c6, -1), (0x1c7, 0x1c7, 1), (0x1c8, 0x1c8, 0),
    (0x1c9, 0x1c9, -1), (0x1ca, 0x1ca, 1), (0x1cb, 0x1cb, 0), (0x1cc, 0x1cc, -1), (0x1f1, 0x1f1, 1),
    (0x1f2, 0x1f2, 0), (0x1f3, 0x1f3, -1), (0x10d0, 0x10fa, 0), (0x10fd, 0x10ff, 0), (0x1f80, 0x1f87, 8),
    (0x1f88, 0x1f8f, 0), (0x1f90, 0x1f97, 8), (0x1f98, 0x1f9f, 0), (0x1fa0, 0x1fa7, 8), (0x1fa8, 0x1faf, 0),
    (0x1fb3, 0x1fb3, 9), (0x1fbc, 0x1fbc, 0), (0x1fc3, 0x1fc3, 9), (0x1fcc, 0x1fcc, 0), (0x1ff3, 0x1ff3, 9),
    (0x1ffc, 0x1ffc, 0)]

def titleSpecial : List (Nat × List Nat) := [
    (0x149, [0x2bc, 0x4e]), (0x1fb2, [0x1fba, 0x345]), (0x1fb4, [0x386, 0x345]), (0x1fb7, [0x391, 0x342, 0x345]),
    (0x1fc2, [0x1fca, 0x345]), (0x1fc4, [0x389, 0x345]), (0x1fc7, [0x397, 0x342, 0x345]), (0x1ff2, [0x1ffa, 0x345]),
    (0x1ff4, [0x38f, 0x345]), (0x1ff7, [0x3a9, 0x342, 0x345])]

def foldRuns : List Run := Run.ofShifts [
    (0x131, 0x131, 0), (0x13a0, 0x13f5, 0), (0x13f8, 0x13fd, -8), (0xab70, 0xabbf, -38864)]

def special? (table : List (Nat × List Nat)) (n : Nat) : Option (List Char) := (table.lookup n).map (·.map Char.ofNat)

def shifted? (runs : List Run) (c : Char) : Option Char := (runs.findSome? (·.move? c.toNat)).map Char.ofNat

def lowerChar (c : Char) : List Char :=
  if c.toNat < 128 then [c.toLower] else (special? lowerSpecial c.toNat).getD [(shifted? lowerRuns c).getD c]

def upperChar (c : Char) : List Char :=
  if c.toNat < 128 then [c.toUpper]
  else ((special? upperSpecial c.toNat).or ((shifted? iotaRuns c).map ([·, Char.ofNat 0x399]))).getD
    [(shifted? upperRuns c).getD c]

def titleChar (c : Char) : List Char :=
  if c.toNat < 128 then [c.toUpper]
  else ((special? titleSpecial c.toNat).or ((shifted? titleRuns c).map ([·]))).getD
    ((upperChar c).take 1 ++ ((upperChar c).drop 1).flatMap lowerChar)

def foldChar (c : Char) : List Char :=
  if c.toNat < 128 then [c.toLower]
  else ((shifted? foldRuns c).map ([·])).getD (((lowerChar c).flatMap upperChar).flatMap lowerChar)

def isTitleCased (c : Char) : Bool := titleChar c == [c] && upperChar c != [c] && lowerChar c != [c]

def casedBounds : Boundaries := .ofGaps [
    65, 26, 6, 26, 47, 1, 10, 1, 4, 1, 5, 23, 1, 31, 1, 195, 1, 4, 4, 208, 1, 36, 7, 2, 30, 5, 96, 1, 42, 4, 2, 2, 2,
    4, 1, 1, 6, 1, 1, 3, 1, 1, 1, 20, 1, 83, 1, 139, 8, 166, 1, 38, 9, 41, 2839, 38, 1, 1, 5, 1, 2, 43, 2, 3, 672, 86,
    2, 6, 2178, 9, 7, 43, 2, 3, 64, 192, 64, 278, 2, 6, 2, 38, 2, 6, 2, 8, 1, 1, 1, 1, 1, 1, 1, 31, 2, 53, 1, 7, 1, 1,
    3, 3, 1, 7, 3, 4, 2, 6, 4, 13, 5, 3, 1, 7, 116, 1, 13, 1, 16, 13, 101, 1, 4, 1, 2, 10, 1, 1, 3, 5, 6, 1, 1, 1, 1,
    1, 1, 4, 1, 6, 4, 1, 2, 4, 5, 5, 4, 1, 17, 32, 3, 2, 817, 52, 1814, 229, 6, 4, 3, 2, 12, 38, 1, 1, 5, 1, 30994,
    46, 18, 30, 132, 102, 3, 4, 1, 59, 5, 2, 1, 1, 1, 5, 27, 2, 1, 3, 821, 43, 1, 13, 7, 80, 20288, 7, 12, 5, 1033,
    26, 6, 26, 1189, 80, 96, 36, 4, 36, 116, 11, 1, 15, 1, 7, 1, 2, 1, 11, 1, 15, 1, 7, 1, 2, 451, 1, 2, 3, 1, 42, 1,
    9, 1221, 51, 13, 51, 2989, 64, 21856, 64, 25984, 85, 1, 71, 1, 2, 2, 1, 2, 2, 2, 4, 1, 12, 1, 1, 1, 7, 1, 65, 1,
    4, 2, 8, 1, 7, 1, 28, 1, 4, 1, 5, 1, 1, 3, 7, 1, 340, 2, 25, 1, 25, 1, 31, 1, 25, 1, 31, 1, 25, 1, 31, 1, 25, 1,
    31, 1, 25, 1, 8, 1844, 10, 1, 20, 2529, 68, 2028, 26, 6, 26, 6, 26]

def isCased (c : Char) : Bool := if c.toNat < 128 then c.isAlpha else casedBounds.holds c.toNat

def ignorableBounds : Boundaries := .ofGaps [
    39, 1, 6, 1, 11, 1, 35, 1, 1, 1, 71, 1, 4, 1, 1, 1, 4, 1, 2, 2, 503, 192, 4, 2, 4, 1, 9, 2, 1, 1, 251, 7, 207, 1,
    5, 1, 49, 45, 1, 1, 1, 2, 1, 2, 1, 1, 44, 1, 11, 6, 10, 11, 1, 1, 35, 1, 10, 21, 16, 1, 101, 8, 1, 10, 1, 4, 33,
    1, 1, 1, 30, 27, 91, 11, 58, 11, 4, 1, 2, 1, 24, 24, 43, 3, 44, 1, 7, 2, 6, 8, 41, 58, 55, 1, 1, 1, 4, 8, 4, 1, 3,
    7, 10, 2, 13, 1, 15, 1, 58, 1, 4, 4, 8, 1, 20, 2, 26, 1, 2, 2, 57, 1, 4, 2, 4, 2, 2, 3, 3, 1, 30, 2, 3, 1, 11, 2,
    57, 1, 4, 5, 1, 2, 4, 1, 20, 2, 22, 6, 1, 1, 58, 1, 2, 1, 1, 4, 8, 1, 7, 2, 11, 2, 30, 1, 61, 1, 12, 1, 50, 1, 3,
    1, 55, 1, 1, 3, 5, 3, 1, 4, 7, 2, 11, 2, 29, 1, 58, 1, 2, 1, 6, 1, 5, 2, 20, 2, 28, 2, 57, 2, 4, 4, 8, 1, 20, 2,
    29, 1, 72, 1, 7, 3, 1, 1, 90, 1, 2, 7, 11, 9, 98, 1, 2, 9, 9, 1, 1, 6, 74, 2, 27, 1, 1, 1, 1, 1, 55, 14, 1, 5, 1,
    2, 5, 11, 1, 36, 9, 1, 102, 4, 1, 6, 1, 2, 2, 2, 25, 2, 4, 3, 16, 4, 13, 1, 2, 2, 6, 1, 15, 1, 94, 1, 608, 3, 946,
    3, 29, 2, 30, 2, 30, 2, 64, 2, 1, 7, 8, 1, 2, 11, 3, 1, 5, 1, 45, 5, 51, 1, 65, 2, 34, 1, 118, 3, 4, 2, 9, 1, 6,
    3, 219, 2, 2, 1, 58, 1, 1, 7, 1, 1, 1, 1, 2, 8, 6, 10, 2, 1, 39, 1, 8, 31, 49, 4, 48, 1, 1, 5, 1, 1, 5, 1, 40, 9,
    12, 2, 32, 4, 2, 2, 1, 3, 56, 1, 1, 2, 3, 1, 1, 3, 58, 8, 2, 2, 64, 6, 82, 3, 1, 13, 1, 7, 4, 1, 6, 1, 3, 2, 50,
    63, 13, 1, 34, 101, 445, 1, 1, 3, 11, 3, 13, 3, 13, 3, 13, 2, 12, 5, 8, 2, 10, 1, 2, 1, 2, 5, 49, 5, 1, 10, 1, 1,
    13, 1, 16, 13, 51, 33, 2955, 2, 113, 3, 125, 1, 15, 1, 96, 32, 47, 1, 469, 1, 36, 4, 3, 5, 5, 1, 93, 6, 93, 3,
    28438, 1, 1250, 6, 270, 1, 98, 4, 1, 10, 1, 1, 28, 4, 80, 2, 14, 34, 78, 1, 23, 3, 103, 3, 3, 2, 8, 1, 3, 1, 4, 1,
    25, 2, 5, 1, 151, 2, 26, 18, 13, 1, 38, 8, 25, 11, 46, 3, 48, 1, 2, 4, 2, 2, 17, 1, 21, 2, 66, 6, 2, 2, 2, 2, 12,
    1, 8, 1, 35, 1, 11, 1, 51, 1, 1, 3, 2, 2, 5, 2, 1, 1, 27, 1, 14, 2, 5, 2, 1, 1, 100, 5, 9, 3, 121, 1, 2, 1, 4, 1,
    20272, 1, 147, 17, 573, 16, 3, 1, 12, 16, 34, 1, 2, 1, 169, 1, 7, 1, 6, 1, 11, 1, 35, 1, 1, 1, 47, 1, 45, 2, 67,
    1, 21, 3, 513, 1, 226, 1, 149, 5, 1029, 6, 1, 42, 1, 9, 582, 3, 1, 2, 5, 4, 40, 3, 4, 1, 165, 2, 573, 4, 387, 2,
    153, 11, 49, 4, 123, 1, 54, 15, 41, 1, 2, 2, 10, 3, 49, 4, 2, 2, 2, 1, 4, 1, 10, 1, 50, 3, 36, 5, 1, 8, 62, 1, 12,
    2, 52, 9, 10, 4, 2, 1, 95, 3, 2, 1, 1, 2, 6, 1, 160, 1, 3, 8, 21, 2, 57, 2, 3, 1, 37, 7, 3, 5, 195, 8, 2, 3, 1, 1,
    23, 1, 84, 6, 1, 1, 4, 2, 1, 2, 238, 4, 6, 2, 1, 2, 27, 2, 85, 8, 2, 1, 1, 2, 106, 1, 1, 1, 2, 6, 1, 1, 101, 3, 2,
    4, 1, 5, 259, 9, 1, 2, 256, 2, 1, 1, 4, 1, 144, 4, 2, 2, 4, 1, 32, 10, 40, 6, 2, 4, 8, 1, 9, 6, 2, 3, 46, 13, 1,
    2, 406, 7, 1, 6, 1, 1, 82, 22, 2, 7, 1, 2, 1, 2, 122, 6, 3, 1, 1, 2, 1, 7, 1, 1, 72, 2, 3, 1, 1, 1, 347, 2, 5435,
    9, 14007, 5, 59, 7, 9, 4, 1035, 1, 63, 17, 64, 2, 1, 2, 16395, 4, 1, 7, 1, 2, 3230, 2, 1, 4, 4700, 46, 2, 23, 544,
    3, 9, 16, 2, 7, 30, 4, 148, 3, 1979, 55, 4, 50, 8, 1, 14, 1, 22, 5, 1, 15, 1360, 7, 1, 17, 2, 7, 1, 2, 1, 5, 261,
    14, 368, 1, 61, 4, 1504, 7, 109, 8, 2735, 5, 789505, 1, 30, 96, 128, 240]

def isCaseIgnorable (c : Char) : Bool := ignorableBounds.holds c.toNat

def endsWord (before after : List Char) : Bool :=
  ((before.dropWhile isCaseIgnorable).head?.any isCased) &&
    !((after.dropWhile isCaseIgnorable).head?.any isCased)

def lowerWithin (before : List Char) (c : Char) (after : List Char) : List Char :=
  if c.toNat = 0x3a3 then [Char.ofNat (if endsWord before after then 0x3c2 else 0x3c3)] else lowerChar c

def mapWithin (f : List Char → Char → List Char → List Char) : List Char → List Char → List Char
  | _, [] => []
  | before, c :: after => f before c after ++ mapWithin f (c :: before) after

def onChars (f : List Char → List Char) (s : String) : String := String.ofList (f s.toList)

def lower (s : String) : String := onChars (mapWithin lowerWithin []) s

def upper (s : String) : String := onChars (·.flatMap upperChar) s

def caseFold (s : String) : String := onChars (·.flatMap foldChar) s

def title (s : String) : String :=
  onChars (mapWithin (fun before c after =>
    if before.head?.any isCased then lowerWithin before c after else titleChar c) []) s

def capitalize (s : String) : String :=
  onChars (mapWithin (fun before c after =>
    if before.isEmpty then titleChar c else lowerWithin before c after) []) s

def swapCase (s : String) : String :=
  onChars (mapWithin (fun before c after =>
    if isTitleCased c then [c]
    else if lowerChar c == [c] then upperChar c else lowerWithin before c after) []) s

end Casewise.Text
