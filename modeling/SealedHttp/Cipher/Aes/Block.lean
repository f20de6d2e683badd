import SealedHttp.Cipher.Aes.Field

/-!
# The AES block cipher

A state is four columns of four bytes. Each round substitutes bytes, rotates rows, mixes columns
(except in the last round) and adds a round key; deciphering undoes the rounds from the last one on.
-/

namespace SealedHttp.Aes

/-- A column of a state, and a word of a key. -/
structure Word where
  b0 : UInt8
  b1 : UInt8
  b2 : UInt8
  b3 : UInt8
  deriving DecidableEq, Repr, Inhabited

namespace Word

def add (u v : Word) : Word := ⟨u.b0 ^^^ v.b0, u.b1 ^^^ v.b1, u.b2 ^^^ v.b2, u.b3 ^^^ v.b3⟩

def map (f : UInt8 → UInt8) (w : Word) : Word := ⟨f w.b0, f w.b1, f w.b2, f w.b3⟩

def rotate (w : Word) : Word := ⟨w.b1, w.b2, w.b3, w.b0⟩

def mix (w : Word) : Word where
  b0 := double w.b0 ^^^ times3 w.b1 ^^^ w.b2 ^^^ w.b3
  b1 := w.b0 ^^^ double w.b1 ^^^ times3 w.b2 ^^^ w.b3
  b2 := w.b0 ^^^ w.b1 ^^^ double w.b2 ^^^ times3 w.b3
  b3 := times3 w.b0 ^^^ w.b1 ^^^ w.b2 ^^^ double w.b3

def invMix (w : Word) : Word where
  b0 := times14 w.b0 ^^^ times11 w.b1 ^^^ times13 w.b2 ^^^ times9 w.b3
  b1 := times9 w.b0 ^^^ times14 w.b1 ^^^ times11 w.b2 ^^^ times13 w.b3
  b2 := times13 w.b0 ^^^ times9 w.b1 ^^^ times14 w.b2 ^^^ times11 w.b3
  b3 := times11 w.b0 ^^^ times13 w.b1 ^^^ times9 w.b2 ^^^ times14 w.b3

def toBytes (w : Word) : Bytes := [w.b0, w.b1, w.b2, w.b3]

/-- The words of a byte string; a rest of fewer than four bytes is left out. -/
def ofBytes : Bytes → List Word
  | a :: b :: c :: d :: rest => ⟨a, b, c, d⟩ :: ofBytes rest
  | _ => []

end Word

structure State where
  c0 : Word
  c1 : Word
  c2 : Word
  c3 : Word
  deriving DecidableEq, Repr, Inhabited

namespace State

def add (s t : State) : State := ⟨s.c0.add t.c0, s.c1.add t.c1, s.c2.add t.c2, s.c3.add t.c3⟩

def map (f : Word → Word) (s : State) : State := ⟨f s.c0, f s.c1, f s.c2, f s.c3⟩

def shiftRows (s : State) : State where
  c0 := ⟨s.c0.b0, s.c1.b1, s.c2.b2, s.c3.b3⟩
  c1 := ⟨s.c1.b0, s.c2.b1, s.c3.b2, s.c0.b3⟩
  c2 := ⟨s.c2.b0, s.c3.b1, s.c0.b2, s.c1.b3⟩
  c3 := ⟨s.c3.b0, s.c0.b1, s.c1.b2, s.c2.b3⟩

def invShiftRows (s : State) : State where
  c0 := ⟨s.c0.b0, s.c3.b1, s.c2.b2, s.c1.b3⟩
  c1 := ⟨s.c1.b0, s.c0.b1, s.c3.b2, s.c2.b3⟩
  c2 := ⟨s.c2.b0, s.c1.b1, s.c0.b2, s.c3.b3⟩
  c3 := ⟨s.c3.b0, s.c2.b1, s.c1.b2, s.c0.b3⟩

def toBytes (s : State) : Bytes :=
  s.c0.toBytes ++ s.c1.toBytes ++ s.c2.toBytes ++ s.c3.toBytes

def ofWords : List Word → List State
  | a :: b :: c :: d :: rest => ⟨a, b, c, d⟩ :: ofWords rest
  | _ => []

/-- The blocks of a byte string; a rest of fewer than sixteen bytes is left out. -/
def ofBytes (bs : Bytes) : List State := ofWords (Word.ofBytes bs)

/-- Substitution and row rotation, the part that all rounds share. -/
def scramble (s : State) : State := (s.map (Word.map sub)).shiftRows

def unscramble (s : State) : State := s.invShiftRows.map (Word.map invSub)

end State

/-- The rounds with the given keys, the last of which mixes no columns. -/
def rounds : List State → State → State
  | [], s => s
  | [last], s => s.scramble.add last
  | key :: keys, s => rounds keys ((s.scramble.map Word.mix).add key)

def unrounds : List State → State → State
  | [], s => s
  | [last], s => (s.add last).unscramble
  | key :: keys, s => (((unrounds keys s).add key).map Word.invMix).unscramble

/-- The round keys of a cipher: the one added first and those of the rounds. -/
structure Schedule where
  first : State
  keys : List State
  deriving Repr

def Schedule.encipher (k : Schedule) (s : State) : State := rounds k.keys (s.add k.first)

def Schedule.decipher (k : Schedule) (s : State) : State := (unrounds k.keys s).add k.first

/-- The constant of the `n`th turn of the key expansion, counted from one. -/
def turnConstant (n : Nat) : Word := ⟨Nat.repeat double (n - 1) 1, 0, 0, 0⟩

/-- The next word of an expanded key of which `words` is known, `width` words a turn. -/
def nextWord (width : Nat) (words : Array Word) : Word :=
  let i := words.size
  let previous := words.getD (i - 1) default
  let turned :=
    if i % width = 0 then (previous.rotate.map sub).add (turnConstant (i / width))
    else if 6 < width ∧ i % width = 4 then previous.map sub
    else previous
  (words.getD (i - width) default).add turned

def expand (width : Nat) : (n : Nat) → Array Word → Array Word
  | 0, words => words
  | n + 1, words => expand width n (words.push (nextWord width words))

def Schedule.ofKey (key : Bytes) : Schedule :=
  let words := Word.ofBytes key
  let width := words.length
  let count := 4 * (width + 7)
  match State.ofWords (expand width (count - width) words.toArray).toList with
  | [] => ⟨default, []⟩
  | first :: keys => ⟨first, keys⟩

end SealedHttp.Aes
