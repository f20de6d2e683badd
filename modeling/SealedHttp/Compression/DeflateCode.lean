import SealedHttp.Compression.HuffmanTree

/-!
# The alphabets of deflate

Symbols below 256 are literals, 256 ends a block, the symbols from 257 on start a copy. Length and
distance symbols stand for a range each, narrowed down by extra bits.
-/

namespace SealedHttp.DeflateCode

/-- First length and number of extra bits of the length symbols from 257 on. -/
def lengthRanges : Array (Nat × Nat) := #[
  (3, 0), (4, 0), (5, 0), (6, 0), (7, 0), (8, 0), (9, 0), (10, 0), (11, 1), (13, 1), (15, 1),
  (17, 1), (19, 2), (23, 2), (27, 2), (31, 2), (35, 3), (43, 3), (51, 3), (59, 3), (67, 4),
  (83, 4), (99, 4), (115, 4), (131, 5), (163, 5), (195, 5), (227, 5), (258, 0)]

def distanceRanges : Array (Nat × Nat) := #[
  (1, 0), (2, 0), (3, 0), (4, 0), (5, 1), (7, 1), (9, 2), (13, 2), (17, 3), (25, 3), (33, 4),
  (49, 4), (65, 5), (97, 5), (129, 6), (193, 6), (257, 7), (385, 7), (513, 8), (769, 8),
  (1025, 9), (1537, 9), (2049, 10), (3073, 10), (4097, 11), (6145, 11), (8193, 12),
  (12289, 12), (16385, 13), (24577, 13)]

/-- The order in which the lengths of the code-length code are sent. -/
def lengthOrder : List Nat :=
  [16, 17, 18, 0, 8, 7, 9, 6, 10, 5, 11, 4, 12, 3, 13, 2, 14, 1, 15]

def fixedLiteralLengths : List Nat :=
  List.replicate 144 8 ++ List.replicate 112 9 ++ List.replicate 24 7 ++ List.replicate 8 8

def fixedDistanceLengths : List Nat := List.replicate 32 5

structure Codes where
  literals : HuffmanTable
  distances : HuffmanTable

def fixedCodes : Codes where
  literals := HuffmanTable.ofLengths fixedLiteralLengths
  distances := HuffmanTable.ofLengths fixedDistanceLengths

/-- The number of the last range that starts at or below `n`, with what it starts at and its extra
bits. -/
def rangeOf (ranges : Array (Nat × Nat)) (n : Nat) : Nat × Nat × Nat :=
  let k := (ranges.toList.takeWhile (·.1 ≤ n)).length - 1
  (k, ranges.getD k (0, 0))

end SealedHttp.DeflateCode
