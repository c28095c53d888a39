/-
Failures as they are told to a reader: what failed, and why, from the outside
in.

An error that has a cause may name it in its own message.  The cause follows all
the same, so that it is told twice (`naming`).
-/

namespace Stitch

structure Failure where
  message : String
  /-- What led to the failure, the nearest cause first. -/
  causes : List String := []
  deriving DecidableEq, Repr, Inhabited

namespace Failure

/-- A failure without a cause. -/
def ofMessage (message : String) : Failure := ⟨message, []⟩

/-- A failure whose message ends with its cause. -/
def naming (message cause : String) : Failure := ⟨s!"{message}: {cause}", [cause]⟩

/-- The failure of something larger, because of this one. -/
def within (f : Failure) (message : String) : Failure := ⟨message, f.message :: f.causes⟩

/-- The failure and its causes on one line. -/
def chain (f : Failure) : String := String.intercalate ": " (f.message :: f.causes)

variable {m : Type → Type} [Monad m] {ε α : Type}

/-- A result whose error is told as a failure. -/
def told (tell : ε → Failure) (x : Except ε α) : ExceptT Failure m α :=
  ExceptT.mk (return x.mapError tell)

/-- Work whose errors are told as failures. -/
def telling (tell : ε → Failure) (x : ExceptT ε m α) : ExceptT Failure m α := x.adapt tell

/-- Work that is part of something larger. -/
def during (message : String) (x : ExceptT Failure m α) : ExceptT Failure m α :=
  x.adapt fun f => f.within message

end Failure

end Stitch
