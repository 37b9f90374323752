/-! A hash of number sequences: Fowler, Noll and Vo's with 64 bits, over four bytes of each number, from the
lowest to the highest. -/

namespace CodeClones.Hash

def basis : UInt64 := 0xcbf29ce484222325

def prime : UInt64 := 0x100000001b3

def addByte (hash : UInt64) (byte : Nat) : UInt64 := (hash ^^^ UInt64.ofNat (byte % 256)) * prime

def bytes (key : Nat) : List Nat := [key, key >>> 8, key >>> 16, key >>> 24]

def addKey (hash : UInt64) (key : Nat) : UInt64 := (bytes key).foldl addByte hash

def ofKeys (keys : List Nat) : UInt64 := keys.foldl addKey basis

end CodeClones.Hash
