/-! Reading bytes as UTF-8. Each maximal part of the bytes that could start a character but does not
complete one is read as a single replacement character. -/

namespace CodeClones.Text

def replacement : Char := '\uFFFD'

/-- The number of further bytes after a first byte, and the bounds of the second one. The bounds keep out
overlong forms, surrogates and everything above U+10FFFF. -/
def following? (first : UInt8) : Option (Nat × UInt8 × UInt8) :=
  if 0xC2 ≤ first ∧ first ≤ 0xDF then some (1, 0x80, 0xBF)
  else if first = 0xE0 then some (2, 0xA0, 0xBF)
  else if first = 0xED then some (2, 0x80, 0x9F)
  else if 0xE1 ≤ first ∧ first ≤ 0xEF then some (2, 0x80, 0xBF)
  else if first = 0xF0 then some (3, 0x90, 0xBF)
  else if 0xF1 ≤ first ∧ first ≤ 0xF3 then some (3, 0x80, 0xBF)
  else if first = 0xF4 then some (3, 0x80, 0x8F)
  else none

/-- The longest run of at most `count` bytes of which the first lies within the bounds and the others are
continuation bytes. -/
def continuation (low high : UInt8) : Nat → List UInt8 → List UInt8
  | 0, _ => []
  | _, [] => []
  | count + 1, b :: bytes =>
      if low ≤ b ∧ b ≤ high then b :: continuation 0x80 0xBF count bytes else []

def codePoint (lead : Nat) (bytes : List UInt8) : Nat :=
  bytes.foldl (fun n b => n * 64 + b.toNat % 64) lead

def leadBits (first : UInt8) (count : Nat) : Nat := first.toNat % (1 <<< (6 - count))

/-- Decodes in front of `decoded`, which holds the characters read so far from last to first. -/
def decodeOnto (decoded : List Char) (bytes : List UInt8) : List Char :=
  match bytes with
  | [] => decoded.reverse
  | first :: rest =>
      if first < 0x80 then decodeOnto (Char.ofNat first.toNat :: decoded) rest
      else match following? first with
        | none => decodeOnto (replacement :: decoded) rest
        | some (count, low, high) =>
            let more := continuation low high count rest
            let c := if more.length = count then Char.ofNat (codePoint (leadBits first count) more)
              else replacement
            decodeOnto (c :: decoded) (rest.drop more.length)
termination_by bytes.length
decreasing_by all_goals (simp only [List.length_cons, List.length_drop]; omega)

def decode (bytes : List UInt8) : List Char := decodeOnto [] bytes

end CodeClones.Text
