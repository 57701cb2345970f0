import Stratagem.Text.Ranges

/-!
Tables of the full case mappings, for version 14 of the character database: runs of single
characters with one common distance, the characters whose image is longer than one character,
and the two classes that decide where a capital sigma is final.
-/

namespace Stratagem.Text

/-- Characters `first`, `first + stride`, … (`count` of them), each mapped `distance` further. -/
structure CaseRun where
  first : Nat
  count : Nat
  stride : Nat
  distance : Int

/-- The runs after a code point, from four numbers for each of them: how far it starts from there or
from the run before, then its count, stride and distance. -/
def CaseRun.table (start : Nat) : List Int → List CaseRun
  | gap :: count :: stride :: distance :: rest =>
    let first := start + gap.toNat
    ⟨first, count.toNat, stride.toNat, distance⟩ :: table first rest
  | _ => []

/-- Characters with a single upper-case image. -/
def upperRuns : List CaseRun :=
  CaseRun.table 0
    [97, 26, 1, -32, 84, 1, 1, 743, 43, 23, 1, -32, 24, 7, 1, -32, 7, 1, 1, 121, 2, 24, 2, -1, 48,
     1, 1, -232, 2, 3, 2, -1, 7, 8, 2, -1, 17, 23, 2, -1, 47, 3, 2, -1, 5, 1, 1, -300, 1, 1, 1,
     195, 3, 2, 2, -1, 5, 1, 1, -1, 4, 1, 1, -1, 6, 1, 1, -1, 3, 1, 1, 97, 4, 1, 1, -1, 1, 1, 1,
     163, 4, 1, 1, 130, 3, 3, 2, -1, 7, 1, 1, -1, 5, 1, 1, -1, 3, 1, 1, -1, 4, 2, 2, -1, 5, 1, 1,
     -1, 4, 1, 1, -1, 2, 1, 1, 56, 6, 1, 1, -1, 1, 1, 1, -2, 2, 1, 1, -1, 1, 1, 1, -2, 2, 1, 1, -1,
     1, 1, 1, -2, 2, 8, 2, -1, 15, 1, 1, -79, 2, 9, 2, -1, 19, 1, 1, -1, 1, 1, 1, -2, 2, 1, 1, -1,
     4, 20, 2, -1, 42, 9, 2, -1, 25, 1, 1, -1, 3, 2, 1, 10815, 3, 1, 1, -1, 5, 5, 2, -1, 9, 1, 1,
     10783, 1, 1, 1, 10780, 1, 1, 1, 10782, 1, 1, 1, -210, 1, 1, 1, -206, 2, 2, 1, -205, 3, 1, 1,
     -202, 2, 1, 1, -203, 1, 1, 1, 42319, 4, 1, 1, -205, 1, 1, 1, 42315, 2, 1, 1, -207, 2, 1, 1,
     42280, 1, 1, 1, 42308, 2, 1, 1, -209, 1, 1, 1, -211, 1, 1, 1, 42308, 1, 1, 1, 10743, 1, 1, 1,
     42305, 3, 1, 1, -211, 2, 1, 1, 10749, 1, 1, 1, -213, 3, 1, 1, -214, 8, 1, 1, 10727, 3, 1, 1,
     -218, 2, 1, 1, 42307, 1, 1, 1, -218, 4, 1, 1, 42282, 1, 1, 1, -218, 1, 1, 1, -69, 1, 2, 1,
     -217, 2, 1, 1, -71, 6, 1, 1, -219, 11, 1, 1, 42261, 1, 1, 1, 42258, 167, 1, 1, 84, 44, 2, 2,
     -1, 6, 1, 1, -1, 4, 3, 1, 130, 49, 1, 1, -38, 1, 3, 1, -37, 4, 17, 1, -32, 17, 1, 1, -31, 1,
     9, 1, -32, 9, 1, 1, -64, 1, 2, 1, -63, 3, 1, 1, -62, 1, 1, 1, -57, 4, 1, 1, -47, 1, 1, 1, -54,
     1, 1, 1, -8, 2, 12, 2, -1, 23, 1, 1, -86, 1, 1, 1, -80, 1, 1, 1, 7, 1, 1, 1, -116, 2, 1, 1,
     -96, 3, 1, 1, -1, 3, 1, 1, -1, 53, 32, 1, -32, 32, 16, 1, -80, 17, 17, 2, -1, 42, 27, 2, -1,
     55, 7, 2, -1, 13, 1, 1, -15, 2, 48, 2, -1, 144, 38, 1, -48, 2927, 43, 1, 3008, 45, 3, 1, 3008,
     763, 6, 1, -8, 2184, 1, 1, -6254, 1, 1, 1, -6253, 1, 1, 1, -6244, 1, 2, 1, -6242, 2, 1, 1,
     -6243, 1, 1, 1, -6236, 1, 1, 1, -6181, 1, 1, 1, 35266, 241, 1, 1, 35332, 4, 1, 1, 3814, 17, 1,
     1, 35384, 115, 75, 2, -1, 154, 1, 1, -59, 6, 48, 2, -1, 95, 8, 1, 8, 16, 6, 1, 8, 16, 8, 1, 8,
     16, 8, 1, 8, 16, 6, 1, 8, 17, 4, 2, 8, 15, 8, 1, 8, 16, 2, 1, 74, 2, 4, 1, 86, 4, 2, 1, 100,
     2, 2, 1, 128, 2, 2, 1, 112, 2, 2, 1, 126, 52, 2, 1, 8, 14, 1, 1, -7205, 18, 2, 1, 8, 16, 2, 1,
     8, 5, 1, 1, 7, 361, 1, 1, -28, 34, 16, 1, -16, 20, 1, 1, -1, 844, 26, 1, -26, 1888, 48, 1,
     -48, 49, 1, 1, -1, 4, 1, 1, -10795, 1, 1, 1, -10792, 2, 3, 2, -1, 11, 1, 1, -1, 3, 1, 1, -1,
     11, 50, 2, -1, 107, 2, 2, -1, 7, 1, 1, -1, 13, 38, 1, -7264, 39, 1, 1, -7264, 6, 1, 1, -7264,
     30996, 23, 2, -1, 64, 14, 2, -1, 162, 7, 2, -1, 16, 31, 2, -1, 71, 2, 2, -1, 5, 5, 2, -1, 13,
     1, 1, -1, 5, 2, 2, -1, 3, 1, 1, 48, 3, 10, 2, -1, 30, 8, 2, -1, 19, 2, 2, -1, 9, 1, 1, -1, 6,
     2, 2, -1, 31, 1, 1, -1, 861, 1, 1, -928, 29, 80, 1, -38864, 21457, 26, 1, -32, 1255, 40, 1,
     -40, 176, 36, 1, -40, 191, 11, 1, -39, 12, 15, 1, -39, 16, 7, 1, -39, 8, 2, 1, -39, 1797, 51,
     1, -64, 3072, 32, 1, -32, 21920, 32, 1, -32, 31426, 34, 1, -34]

/-- Characters whose upper-case image has several characters. -/
def upperLong : List (Nat × List Nat) :=
  [(0xdf, [0x53, 0x53]), (0x149, [0x2bc, 0x4e]), (0x1f0, [0x4a, 0x30c]),
   (0x390, [0x399, 0x308, 0x301]), (0x3b0, [0x3a5, 0x308, 0x301]), (0x587, [0x535, 0x552]),
   (0x1e96, [0x48, 0x331]), (0x1e97, [0x54, 0x308]), (0x1e98, [0x57, 0x30a]),
   (0x1e99, [0x59, 0x30a]), (0x1e9a, [0x41, 0x2be]), (0x1f50, [0x3a5, 0x313]),
   (0x1f52, [0x3a5, 0x313, 0x300]), (0x1f54, [0x3a5, 0x313, 0x301]),
   (0x1f56, [0x3a5, 0x313, 0x342]), (0x1f80, [0x1f08, 0x399]), (0x1f81, [0x1f09, 0x399]),
   (0x1f82, [0x1f0a, 0x399]), (0x1f83, [0x1f0b, 0x399]), (0x1f84, [0x1f0c, 0x399]),
   (0x1f85, [0x1f0d, 0x399]), (0x1f86, [0x1f0e, 0x399]), (0x1f87, [0x1f0f, 0x399]),
   (0x1f88, [0x1f08, 0x399]), (0x1f89, [0x1f09, 0x399]), (0x1f8a, [0x1f0a, 0x399]),
   (0x1f8b, [0x1f0b, 0x399]), (0x1f8c, [0x1f0c, 0x399]), (0x1f8d, [0x1f0d, 0x399]),
   (0x1f8e, [0x1f0e, 0x399]), (0x1f8f, [0x1f0f, 0x399]), (0x1f90, [0x1f28, 0x399]),
   (0x1f91, [0x1f29, 0x399]), (0x1f92, [0x1f2a, 0x399]), (0x1f93, [0x1f2b, 0x399]),
   (0x1f94, [0x1f2c, 0x399]), (0x1f95, [0x1f2d, 0x399]), (0x1f96, [0x1f2e, 0x399]),
   (0x1f97, [0x1f2f, 0x399]), (0x1f98, [0x1f28, 0x399]), (0x1f99, [0x1f29, 0x399]),
   (0x1f9a, [0x1f2a, 0x399]), (0x1f9b, [0x1f2b, 0x399]), (0x1f9c, [0x1f2c, 0x399]),
   (0x1f9d, [0x1f2d, 0x399]), (0x1f9e, [0x1f2e, 0x399]), (0x1f9f, [0x1f2f, 0x399]),
   (0x1fa0, [0x1f68, 0x399]), (0x1fa1, [0x1f69, 0x399]), (0x1fa2, [0x1f6a, 0x399]),
   (0x1fa3, [0x1f6b, 0x399]), (0x1fa4, [0x1f6c, 0x399]), (0x1fa5, [0x1f6d, 0x399]),
   (0x1fa6, [0x1f6e, 0x399]), (0x1fa7, [0x1f6f, 0x399]), (0x1fa8, [0x1f68, 0x399]),
   (0x1fa9, [0x1f69, 0x399]), (0x1faa, [0x1f6a, 0x399]), (0x1fab, [0x1f6b, 0x399]),
   (0x1fac, [0x1f6c, 0x399]), (0x1fad, [0x1f6d, 0x399]), (0x1fae, [0x1f6e, 0x399]),
   (0x1faf, [0x1f6f, 0x399]), (0x1fb2, [0x1fba, 0x399]), (0x1fb3, [0x391, 0x399]),
   (0x1fb4, [0x386, 0x399]), (0x1fb6, [0x391, 0x342]), (0x1fb7, [0x391, 0x342, 0x399]),
   (0x1fbc, [0x391, 0x399]), (0x1fc2, [0x1fca, 0x399]), (0x1fc3, [0x397, 0x399]),
   (0x1fc4, [0x389, 0x399]), (0x1fc6, [0x397, 0x342]), (0x1fc7, [0x397, 0x342, 0x399]),
   (0x1fcc, [0x397, 0x399]), (0x1fd2, [0x399, 0x308, 0x300]), (0x1fd3, [0x399, 0x308, 0x301]),
   (0x1fd6, [0x399, 0x342]), (0x1fd7, [0x399, 0x308, 0x342]), (0x1fe2, [0x3a5, 0x308, 0x300]),
   (0x1fe3, [0x3a5, 0x308, 0x301]), (0x1fe4, [0x3a1, 0x313]), (0x1fe6, [0x3a5, 0x342]),
   (0x1fe7, [0x3a5, 0x308, 0x342]), (0x1ff2, [0x1ffa, 0x399]), (0x1ff3, [0x3a9, 0x399]),
   (0x1ff4, [0x38f, 0x399]), (0x1ff6, [0x3a9, 0x342]), (0x1ff7, [0x3a9, 0x342, 0x399]),
   (0x1ffc, [0x3a9, 0x399]), (0xfb00, [0x46, 0x46]), (0xfb01, [0x46, 0x49]),
   (0xfb02, [0x46, 0x4c]), (0xfb03, [0x46, 0x46, 0x49]), (0xfb04, [0x46, 0x46, 0x4c]),
   (0xfb05, [0x53, 0x54]), (0xfb06, [0x53, 0x54]), (0xfb13, [0x544, 0x546]),
   (0xfb14, [0x544, 0x535]), (0xfb15, [0x544, 0x53b]), (0xfb16, [0x54e, 0x546]),
   (0xfb17, [0x544, 0x53d])]

/-- Characters with a single lower-case image. -/
def lowerRuns : List CaseRun :=
  CaseRun.table 0
    [65, 26, 1, 32, 127, 23, 1, 32, 24, 7, 1, 32, 40, 24, 2, 1, 50, 3, 2, 1, 7, 8, 2, 1, 17, 23, 2,
     1, 46, 1, 1, -121, 1, 3, 2, 1, 8, 1, 1, 210, 1, 2, 2, 1, 4, 1, 1, 206, 1, 1, 1, 1, 2, 2, 1,
     205, 2, 1, 1, 1, 3, 1, 1, 79, 1, 1, 1, 202, 1, 1, 1, 203, 1, 1, 1, 1, 2, 1, 1, 205, 1, 1, 1,
     207, 2, 1, 1, 211, 1, 1, 1, 209, 1, 1, 1, 1, 4, 1, 1, 211, 1, 1, 1, 213, 2, 1, 1, 214, 1, 3,
     2, 1, 6, 1, 1, 218, 1, 1, 1, 1, 2, 1, 1, 218, 3, 1, 1, 1, 2, 1, 1, 218, 1, 1, 1, 1, 2, 2, 1,
     217, 2, 2, 2, 1, 4, 1, 1, 219, 1, 1, 1, 1, 4, 1, 1, 1, 8, 1, 1, 2, 1, 1, 1, 1, 2, 1, 1, 2, 1,
     1, 1, 1, 2, 1, 1, 2, 1, 9, 2, 1, 19, 9, 2, 1, 19, 1, 1, 2, 1, 2, 2, 1, 4, 1, 1, -97, 1, 1, 1,
     -56, 1, 20, 2, 1, 40, 1, 1, -130, 2, 9, 2, 1, 24, 1, 1, 10795, 1, 1, 1, 1, 2, 1, 1, -163, 1,
     1, 1, 10792, 3, 1, 1, 1, 2, 1, 1, -195, 1, 1, 1, 69, 1, 1, 1, 71, 1, 5, 2, 1, 298, 2, 2, 1, 6,
     1, 1, 1, 9, 1, 1, 116, 7, 1, 1, 38, 2, 3, 1, 37, 4, 1, 1, 64, 2, 2, 1, 63, 3, 17, 1, 32, 18,
     9, 1, 32, 44, 1, 1, 8, 9, 12, 2, 1, 28, 1, 1, -60, 3, 1, 1, 1, 2, 1, 1, -7, 1, 1, 1, 1, 3, 3,
     1, -130, 3, 16, 1, 80, 16, 32, 1, 32, 80, 17, 2, 1, 42, 27, 2, 1, 54, 1, 1, 15, 1, 7, 2, 1,
     15, 48, 2, 1, 97, 38, 1, 48, 2927, 38, 1, 7264, 39, 1, 1, 7264, 6, 1, 1, 7264, 723, 80, 1,
     38864, 80, 6, 1, 8, 2208, 43, 1, -3008, 45, 3, 1, -3008, 323, 75, 2, 1, 158, 1, 1, -7615, 2,
     48, 2, 1, 104, 8, 1, -8, 16, 6, 1, -8, 16, 8, 1, -8, 16, 8, 1, -8, 16, 6, 1, -8, 17, 4, 2, -8,
     15, 8, 1, -8, 32, 8, 1, -8, 16, 8, 1, -8, 16, 8, 1, -8, 16, 2, 1, -8, 2, 2, 1, -74, 2, 1, 1,
     -9, 12, 4, 1, -86, 4, 1, 1, -9, 12, 2, 1, -8, 2, 2, 1, -100, 14, 2, 1, -8, 2, 2, 1, -112, 2,
     1, 1, -7, 12, 2, 1, -128, 2, 2, 1, -126, 2, 1, 1, -9, 298, 1, 1, -7517, 4, 1, 1, -8383, 1, 1,
     1, -8262, 7, 1, 1, 28, 46, 16, 1, 16, 35, 1, 1, 1, 819, 26, 1, 26, 1866, 48, 1, 48, 96, 1, 1,
     1, 2, 1, 1, -10743, 1, 1, 1, -3814, 1, 1, 1, -10727, 3, 3, 2, 1, 6, 1, 1, -10780, 1, 1, 1,
     -10749, 1, 1, 1, -10783, 1, 1, 1, -10782, 2, 1, 1, 1, 3, 1, 1, 1, 9, 2, 1, -10815, 2, 50, 2,
     1, 107, 2, 2, 1, 7, 1, 1, 1, 31054, 23, 2, 1, 64, 14, 2, 1, 162, 7, 2, 1, 16, 31, 2, 1, 71, 2,
     2, 1, 4, 1, 1, -35332, 1, 5, 2, 1, 13, 1, 1, 1, 2, 1, 1, -42280, 3, 2, 2, 1, 6, 10, 2, 1, 20,
     1, 1, -42308, 1, 1, 1, -42319, 1, 1, 1, -42315, 1, 1, 1, -42305, 1, 1, 1, -42308, 2, 1, 1,
     -42258, 1, 1, 1, -42282, 1, 1, 1, -42261, 1, 1, 1, 928, 1, 8, 2, 1, 16, 1, 1, -48, 1, 1, 1,
     -42307, 1, 1, 1, -35384, 1, 2, 2, 1, 9, 1, 1, 1, 6, 2, 2, 1, 31, 1, 1, 1, 22316, 26, 1, 32,
     1247, 40, 1, 40, 176, 36, 1, 40, 192, 11, 1, 39, 12, 15, 1, 39, 16, 7, 1, 39, 8, 2, 1, 39,
     1772, 51, 1, 64, 3104, 32, 1, 32, 21920, 32, 1, 32, 31424, 34, 1, 34]

/-- Characters whose lower-case image has several characters. -/
def lowerLong : List (Nat × List Nat) :=
  [(0x130, [0x69, 0x307])]

/-- Characters that have a case. -/
def cased : List (Nat × Nat) :=
  spans 0
    [65, 26, 6, 26, 47, 1, 10, 1, 4, 1, 5, 23, 1, 31, 1, 195, 1, 4, 4, 208, 1, 36, 7, 2, 30, 5, 96,
     1, 42, 4, 2, 2, 2, 4, 1, 1, 6, 1, 1, 3, 1, 1, 1, 20, 1, 83, 1, 139, 8, 166, 1, 38, 9, 41,
     2839, 38, 1, 1, 5, 1, 2, 43, 2, 3, 672, 86, 2, 6, 2178, 9, 7, 43, 2, 3, 64, 192, 64, 278, 2,
     6, 2, 38, 2, 6, 2, 8, 1, 1, 1, 1, 1, 1, 1, 31, 2, 53, 1, 7, 1, 1, 3, 3, 1, 7, 3, 4, 2, 6, 4,
     13, 5, 3, 1, 7, 116, 1, 13, 1, 16, 13, 101, 1, 4, 1, 2, 10, 1, 1, 3, 5, 6, 1, 1, 1, 1, 1, 1,
     4, 1, 6, 4, 1, 2, 4, 5, 5, 4, 1, 17, 32, 3, 2, 817, 52, 1814, 229, 6, 4, 3, 2, 12, 38, 1, 1,
     5, 1, 30994, 46, 18, 30, 132, 102, 3, 4, 1, 59, 5, 2, 1, 1, 1, 5, 27, 2, 1, 3, 821, 43, 1, 13,
     7, 80, 20288, 7, 12, 5, 1033, 26, 6, 26, 1189, 80, 96, 36, 4, 36, 116, 11, 1, 15, 1, 7, 1, 2,
     1, 11, 1, 15, 1, 7, 1, 2, 451, 1, 2, 3, 1, 42, 1, 9, 1221, 51, 13, 51, 2989, 64, 21856, 64,
     25984, 85, 1, 71, 1, 2, 2, 1, 2, 2, 2, 4, 1, 12, 1, 1, 1, 7, 1, 65, 1, 4, 2, 8, 1, 7, 1, 28,
     1, 4, 1, 5, 1, 1, 3, 7, 1, 340, 2, 25, 1, 25, 1, 31, 1, 25, 1, 31, 1, 25, 1, 31, 1, 25, 1, 31,
     1, 25, 1, 8, 1844, 10, 1, 20, 2529, 68, 2028, 26, 6, 26, 6, 26]

/-- Characters that are looked through when the neighbours of a sigma are judged. -/
def caseIgnorable : List (Nat × Nat) :=
  spans 0
    [39, 1, 6, 1, 11, 1, 35, 1, 1, 1, 71, 1, 4, 1, 1, 1, 4, 1, 2, 2, 503, 192, 4, 2, 4, 1, 9, 2, 1,
     1, 251, 7, 207, 1, 5, 1, 49, 45, 1, 1, 1, 2, 1, 2, 1, 1, 44, 1, 11, 6, 10, 11, 1, 1, 35, 1,
     10, 21, 16, 1, 101, 8, 1, 10, 1, 4, 33, 1, 1, 1, 30, 27, 91, 11, 58, 11, 4, 1, 2, 1, 24, 24,
     43, 3, 44, 1, 7, 2, 6, 8, 41, 58, 55, 1, 1, 1, 4, 8, 4, 1, 3, 7, 10, 2, 13, 1, 15, 1, 58, 1,
     4, 4, 8, 1, 20, 2, 26, 1, 2, 2, 57, 1, 4, 2, 4, 2, 2, 3, 3, 1, 30, 2, 3, 1, 11, 2, 57, 1, 4,
     5, 1, 2, 4, 1, 20, 2, 22, 6, 1, 1, 58, 1, 2, 1, 1, 4, 8, 1, 7, 2, 11, 2, 30, 1, 61, 1, 12, 1,
     50, 1, 3, 1, 55, 1, 1, 3, 5, 3, 1, 4, 7, 2, 11, 2, 29, 1, 58, 1, 2, 1, 6, 1, 5, 2, 20, 2, 28,
     2, 57, 2, 4, 4, 8, 1, 20, 2, 29, 1, 72, 1, 7, 3, 1, 1, 90, 1, 2, 7, 11, 9, 98, 1, 2, 9, 9, 1,
     1, 6, 74, 2, 27, 1, 1, 1, 1, 1, 55, 14, 1, 5, 1, 2, 5, 11, 1, 36, 9, 1, 102, 4, 1, 6, 1, 2, 2,
     2, 25, 2, 4, 3, 16, 4, 13, 1, 2, 2, 6, 1, 15, 1, 94, 1, 608, 3, 946, 3, 29, 2, 30, 2, 30, 2,
     64, 2, 1, 7, 8, 1, 2, 11, 3, 1, 5, 1, 45, 5, 51, 1, 65, 2, 34, 1, 118, 3, 4, 2, 9, 1, 6, 3,
     219, 2, 2, 1, 58, 1, 1, 7, 1, 1, 1, 1, 2, 8, 6, 10, 2, 1, 39, 1, 8, 31, 49, 4, 48, 1, 1, 5, 1,
     1, 5, 1, 40, 9, 12, 2, 32, 4, 2, 2, 1, 3, 56, 1, 1, 2, 3, 1, 1, 3, 58, 8, 2, 2, 64, 6, 82, 3,
     1, 13, 1, 7, 4, 1, 6, 1, 3, 2, 50, 63, 13, 1, 34, 101, 445, 1, 1, 3, 11, 3, 13, 3, 13, 3, 13,
     2, 12, 5, 8, 2, 10, 1, 2, 1, 2, 5, 49, 5, 1, 10, 1, 1, 13, 1, 16, 13, 51, 33, 2955, 2, 113, 3,
     125, 1, 15, 1, 96, 32, 47, 1, 469, 1, 36, 4, 3, 5, 5, 1, 93, 6, 93, 3, 28438, 1, 1250, 6, 270,
     1, 98, 4, 1, 10, 1, 1, 28, 4, 80, 2, 14, 34, 78, 1, 23, 3, 103, 3, 3, 2, 8, 1, 3, 1, 4, 1, 25,
     2, 5, 1, 151, 2, 26, 18, 13, 1, 38, 8, 25, 11, 46, 3, 48, 1, 2, 4, 2, 2, 17, 1, 21, 2, 66, 6,
     2, 2, 2, 2, 12, 1, 8, 1, 35, 1, 11, 1, 51, 1, 1, 3, 2, 2, 5, 2, 1, 1, 27, 1, 14, 2, 5, 2, 1,
     1, 100, 5, 9, 3, 121, 1, 2, 1, 4, 1, 20272, 1, 147, 17, 573, 16, 3, 1, 12, 16, 34, 1, 2, 1,
     169, 1, 7, 1, 6, 1, 11, 1, 35, 1, 1, 1, 47, 1, 45, 2, 67, 1, 21, 3, 513, 1, 226, 1, 149, 5,
     1029, 6, 1, 42, 1, 9, 582, 3, 1, 2, 5, 4, 40, 3, 4, 1, 165, 2, 573, 4, 387, 2, 153, 11, 49, 4,
     123, 1, 54, 15, 41, 1, 2, 2, 10, 3, 49, 4, 2, 2, 2, 1, 4, 1, 10, 1, 50, 3, 36, 5, 1, 8, 62, 1,
     12, 2, 52, 9, 10, 4, 2, 1, 95, 3, 2, 1, 1, 2, 6, 1, 160, 1, 3, 8, 21, 2, 57, 2, 3, 1, 37, 7,
     3, 5, 195, 8, 2, 3, 1, 1, 23, 1, 84, 6, 1, 1, 4, 2, 1, 2, 238, 4, 6, 2, 1, 2, 27, 2, 85, 8, 2,
     1, 1, 2, 106, 1, 1, 1, 2, 6, 1, 1, 101, 3, 2, 4, 1, 5, 259, 9, 1, 2, 256, 2, 1, 1, 4, 1, 144,
     4, 2, 2, 4, 1, 32, 10, 40, 6, 2, 4, 8, 1, 9, 6, 2, 3, 46, 13, 1, 2, 406, 7, 1, 6, 1, 1, 82,
     22, 2, 7, 1, 2, 1, 2, 122, 6, 3, 1, 1, 2, 1, 7, 1, 1, 72, 2, 3, 1, 1, 1, 347, 2, 5435, 9,
     14007, 5, 59, 7, 9, 4, 1035, 1, 63, 17, 64, 2, 1, 2, 16395, 4, 1, 7, 1, 2, 3230, 2, 1, 4,
     4700, 46, 2, 23, 544, 3, 9, 16, 2, 7, 30, 4, 148, 3, 1979, 55, 4, 50, 8, 1, 14, 1, 22, 5, 1,
     15, 1360, 7, 1, 17, 2, 7, 1, 2, 1, 5, 261, 14, 368, 1, 61, 4, 1504, 7, 109, 8, 2735, 5,
     789505, 1, 30, 96, 128, 240]

end Stratagem.Text
