import SealedHttp.Compression.BitReader

/-!
# Prefix codes

A code is given by the length of each symbol's word; the words themselves follow canonically. The
tree of a code is walked one bit at a time, and every word has at least one bit.
-/

namespace SealedHttp

/-- A binary tree whose leaves are symbols; a gap is a word that no symbol has. -/
inductive HuffmanTree where
  | gap
  | leaf (symbol : Nat)
  | node (zero one : HuffmanTree)
  deriving Repr

namespace HuffmanTree

def insert (symbol : Nat) : (word : List Bool) → HuffmanTree → HuffmanTree
  | [], _ => leaf symbol
  | false :: word, node zero one => node (insert symbol word zero) one
  | true :: word, node zero one => node zero (insert symbol word one)
  | false :: word, _ => node (insert symbol word gap) gap
  | true :: word, _ => node gap (insert symbol word gap)

def walk : HuffmanTree → BitReader → Except String (Nat × BitReader)
  | gap, _ => .error "invalid code"
  | leaf symbol, r => .ok (symbol, r)
  | node zero one, r =>
    match r.next with
    | none => .error "unexpected end of data"
    | some (false, r) => walk zero r
    | some (true, r) => walk one r

theorem size_of_walk {t : HuffmanTree} {r r' : BitReader} {s : Nat}
    (h : t.walk r = .ok (s, r')) : r'.size ≤ r.size := by
  induction t generalizing r with
  | gap => cases h
  | leaf symbol =>
    simp only [walk, Except.ok.injEq, Prod.mk.injEq] at h
    exact Nat.le_of_eq (congrArg BitReader.size h.2.symm)
  | node zero one ihz iho =>
    unfold walk at h
    split at h
    · cases h
    · next hn => have := BitReader.size_of_next hn; have := ihz h; omega
    · next hn => have := BitReader.size_of_next hn; have := iho h; omega

end HuffmanTree

/-- A code in which no word is empty: the subtrees behind the first bit. -/
structure HuffmanTable where
  zero : HuffmanTree
  one : HuffmanTree
  deriving Repr

namespace HuffmanTable

def insert (t : HuffmanTable) (symbol : Nat) : (word : List Bool) → HuffmanTable
  | [] => t
  | false :: word => { t with zero := t.zero.insert symbol word }
  | true :: word => { t with one := t.one.insert symbol word }

def decode (t : HuffmanTable) (r : BitReader) : Except String (Nat × BitReader) :=
  match r.next with
  | none => .error "unexpected end of data"
  | some (false, r) => t.zero.walk r
  | some (true, r) => t.one.walk r

theorem size_of_decode {t : HuffmanTable} {r r' : BitReader} {s : Nat}
    (h : t.decode r = .ok (s, r')) : r'.size < r.size := by
  unfold decode at h
  split at h
  · cases h
  all_goals
    next hn =>
      have := BitReader.size_of_next hn
      have := HuffmanTree.size_of_walk h
      omega

def word (code : Nat) : (n : Nat) → List Bool
  | 0 => []
  | n + 1 => code.testBit n :: word code n

def countOf (lengths : List Nat) (n : Nat) : Nat := lengths.count n

/-- The first word of `n` bits: shorter words come first, and the words of one length are
consecutive. -/
def firstCode (lengths : List Nat) : (n : Nat) → Nat
  | 0 => 0
  | 1 => 0
  | n + 1 => 2 * (firstCode lengths n + countOf lengths n)

/-- The sum of the shares that the words take of all words of 15 bits, in units of one word. -/
def share (lengths : List Nat) : Nat :=
  lengths.foldr (fun n rest => (if n = 0 then 0 else 1 <<< (15 - n)) + rest) 0

def isComplete (lengths : List Nat) : Bool := share lengths = 1 <<< 15

def used (lengths : List Nat) : Nat := (lengths.filter (· ≠ 0)).length

/-- Inserts the symbols from `symbol` on; `nexts` holds the next free word of each length. -/
def insertAll (symbol : Nat) (nexts : Array Nat) : List Nat → HuffmanTable → HuffmanTable
  | [], t => t
  | 0 :: lengths, t => insertAll (symbol + 1) nexts lengths t
  | n :: lengths, t =>
    let code := nexts.getD n 0
    insertAll (symbol + 1) (nexts.setIfInBounds n (code + 1)) lengths
      (t.insert symbol (word code n))

/-- The canonical code with the given word lengths, at most 15 each, zero for a symbol without a
word. -/
def ofLengths (lengths : List Nat) : HuffmanTable :=
  let nexts := (Array.range 16).map (firstCode lengths)
  insertAll 0 nexts lengths ⟨.gap, .gap⟩

/-- The code, unless it is over-subscribed, or incomplete with more than one symbol. -/
def ofLengths? (lengths : List Nat) : Option HuffmanTable :=
  if isComplete lengths || (used lengths ≤ 1) then some (ofLengths lengths) else none

end HuffmanTable
end SealedHttp
