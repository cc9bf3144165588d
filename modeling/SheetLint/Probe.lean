/-! # Asking for files

A rule may ask whether a file exists.  The question is put to a `Probe`, if there
is one.  What depends on such answers is an `Inquiry`: running it against a probe
yields the verdict and the paths that were asked about, in order.
-/
namespace SheetLint

/-- Tells whether a path names a file. -/
abbrev Probe := String → Bool

/-- What is available to the rules: a probe, or none. -/
abbrev Context := Option Probe

/-- A yes-or-no question whose answer may depend on files. -/
inductive Inquiry where
  /-- The answer is known. -/
  | settled (verdict : Bool)
  /-- The answer depends on whether `path` names a file; without a probe there
  is no telling. -/
  | ask (path : String) (next : Option Bool → Inquiry)

namespace Inquiry

/-- The verdict, and the paths asked about. -/
def run (context : Context) : Inquiry → Bool × List String
  | settled verdict => (verdict, [])
  | ask path next =>
    match context with
    | none => (next none).run context
    | some probe =>
      let (verdict, asked) := (next (some (probe path))).run context
      (verdict, path :: asked)

end Inquiry
end SheetLint
