import Narrative.NameMap
import Narrative.Value

/-!
# Hosts

A story asks its host for the text of its sources and for the methods of the objects that its
variables may hold. It knows such objects by their keys only. Random numbers come from outside, too:
nothing is known about them but that they lie below the bounds that are asked for.
-/

namespace Narrative

/-- Where random numbers come from. The same numbers are drawn again when a story that starts from
the same seed asks in the same way. -/
structure RandomSource where
  /-- The next number below a bound. Before it, numbers below the earlier bounds were drawn since the
  start from the seed, the last bound first. -/
  draw : (seed : Nat) → (earlier : List Nat) → (bound : Nat) → Nat
  /-- The number lies below the bound. -/
  draw_lt (seed : Nat) (earlier : List Nat) {bound : Nat} (h : 0 < bound) :
    draw seed earlier bound < bound

/-- Always draws the least number. -/
def RandomSource.least : RandomSource where
  draw _ _ _ := 0
  draw_lt _ _ _ h := h

/-- What surrounds a story. -/
structure Host where
  /-- The sources that can be opened, by file. -/
  sources : NameMap String
  /-- Why any other file cannot be opened. -/
  refusal : (file : String) → String
  /-- Whether there is an object with a key. -/
  hasObject : (key : String) → Bool
  /-- Calls a method of the object with a key; none when it has no such method. -/
  method : (key method : String) → List Value → Option (Except String Value)
  /-- Where random numbers come from. -/
  random : RandomSource := .least

/-- A host without objects. -/
def Host.ofSources (sources : NameMap String) (refusal : String → String) : Host where
  sources
  refusal
  hasObject _ := false
  method _ _ _ := none

end Narrative
