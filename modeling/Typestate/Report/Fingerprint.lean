import Typestate.Digest.Sha256
import Typestate.Finding

/-!
# Fingerprints of findings

A fingerprint identifies a finding by where it is and what it is. It is short enough to quote: the
first eight bytes of the digest of the function, the call target, the instruction number and the
kinds of misuse, written one behind the other.
-/

namespace Typestate.Finding

/-- The text that the fingerprint is taken of. -/
def identity (f : Finding) : String :=
  f.function ++ f.callee ++ toString f.instruction.index.toNat ++
    String.join ((FiniteSet.toList f.kinds).map MemoryError.label)

/-- The fingerprint of a finding. -/
def fingerprint (f : Finding) : String :=
  String.ofList (((Digest.sha256 f.identity.toUTF8.toList).take 8).flatMap Text.hexByte)

end Typestate.Finding
