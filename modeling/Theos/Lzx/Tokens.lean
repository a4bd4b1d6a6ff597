import Theos.Lzx.Decoder

/-!
# The tokens of a compressed block

A round of `read_compressed_block` first reads a literal or a match, with all
that it checks, and then writes it to the window.  `readToken_eq` takes the two
apart.
-/

namespace Theos
namespace Lzx

open Base
open Fuelled

inductive Token where
  | literal (byte : UInt8)
  | copy (offset length : Nat)
deriving DecidableEq, Repr

namespace Token

/-- The number of bytes it stands for. -/
def length : Token → Nat
  | literal _ => 1
  | copy _ length => length

/-- A token at `i` in a block that ends at `stop`: a match is of bytes before it and ends in the
block. -/
def Fits (i stop : Nat) : Token → Prop
  | literal _ => i < stop
  | copy offset length => 0 < offset ∧ offset ≤ i ∧ 0 < length ∧ i + length ≤ stop

theorem Fits.length_pos {i stop : Nat} {t : Token} (h : t.Fits i stop) :
    0 < t.length := by
  cases t with
  | literal byte =>
    exact Nat.one_pos
  | copy offset length =>
    exact h.2.2.1

theorem Fits.end_le {i stop : Nat} {t : Token} (h : t.Fits i stop) :
    i + t.length ≤ stop := by
  cases t with
  | literal byte =>
    exact h
  | copy offset length =>
    exact h.2.2.2

end Token

/-- The three trees of a block. -/
structure Trees where
  main : Huffman
  length : Huffman
  aligned : Option Huffman

section

variable (stop : Nat) (hmain hlength : Huffman) (haligned : Option Huffman) (i : Nat)

/-- The part of a round that reads. -/
def parseToken : Action Token := do
  let main ← getCode hmain
  if main < 256 then pure (.literal (UInt8.ofNat main))
  else if footerBits.length ≤ (main - 256) / 8 then corrupt
  else
    let matchlen ← readMatchLength hlength ((main - 256) % 8)
    let matchoffset ← readMatchOffset haligned ((main - 256) / 8)
    if matchoffset = 0 ∨ i < matchoffset ∨ stop < i + matchlen then corrupt
    else pure (.copy matchoffset matchlen)

/-- The part of a round that writes. -/
def writeToken : Token → Action Unit
  | .literal byte => writeWindow i byte
  | .copy offset length => copyMatch offset length i

theorem readToken_eq :
    readToken stop hmain hlength haligned i =
      parseToken stop hmain hlength haligned i >>= fun t =>
        writeToken i t >>= fun _ => pure (i + t.length) := by
  rw [readToken, parseToken, bind_assoc]
  refine congrArg (getCode hmain >>= ·) (funext fun main => ?_)
  split
  · rfl
  split
  · rfl
  rw [bind_assoc]
  refine congrArg (readMatchLength hlength _ >>= ·) (funext fun matchlen => ?_)
  rw [bind_assoc]
  refine congrArg (readMatchOffset haligned _ >>= ·) (funext fun matchoffset => ?_)
  split <;> rfl

end

end Lzx
end Theos
