/-!
# Fingerprints

The 64-bit FNV-1a hash of a text's bytes, written as sixteen hexadecimal digits behind the name of the hash.
-/

namespace Express.Fingerprint

def basis : UInt64 := 0xcbf29ce484222325

def prime : UInt64 := 0x100000001b3

def step (hash : UInt64) (byte : UInt8) : UInt64 :=
  (hash ^^^ byte.toUInt64) * prime

def hash (bytes : List UInt8) : UInt64 :=
  bytes.foldl step basis

/-- The lowest `width` hexadecimal digits of `n`, most significant first. -/
def hexDigits (n : Nat) : Nat → List Char
  | 0 => []
  | width + 1 => hexDigits (n / 16) width ++ [Nat.digitChar (n % 16)]

def ofBytes (bytes : List UInt8) : String :=
  "fnv1a64:" ++ String.ofList (hexDigits (hash bytes).toNat 16)

def ofText (text : String) : String :=
  ofBytes text.toUTF8.toList

end Express.Fingerprint
