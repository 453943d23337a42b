import Awk.Files

/-!
# Shells

A shell runs commands.  It is a parameter of the world of a run: what a command does is for the shell to say, from the
environment, the files, the text that the command finds as its input, and the command itself.
-/

namespace Awk

namespace Shell

/-- How a command ended. -/
inductive Ending where
  | exited (status : Nat)
  | signalled (signal : Nat)
  deriving DecidableEq, Repr

/-- What comes of a command. -/
structure Outcome where
  files : Files
  /-- What the command printed. -/
  shown : Text
  /-- What it has left of its input. -/
  left : Text
  ending : Ending
  deriving DecidableEq, Repr

end Shell

/-- What comes of a command, given the environment, the files, its input and its text. -/
abbrev Shell := List (Text × Text) → Files → Text → Text → Shell.Outcome

/-- No command takes anything from its input. -/
def Shell.SparesInput (shell : Shell) : Prop :=
  ∀ environment files input command, (shell environment files input command).left = input

end Awk
