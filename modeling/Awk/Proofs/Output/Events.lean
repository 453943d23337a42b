import Awk.Proofs.World
import Awk.World.Close

/-!
# Events in the world

Everything that a run does in the world, from opening a file to waiting for a command, is one of a few operations
(`World.Event`).  What such an operation leaves behind depends on nothing but the world before it
(`World.Event.perform`), so the world after a run is that after a list of events (`World.performAll`).
-/

namespace Awk.World

/-- An operation on the world. -/
inductive Event where
  | print (t : Text)
  | redirect (op : RedirectOp) (name t : Text)
  | close (name : Text)
  | flush (name : Text)
  | flushAll
  | flushStandard
  | system (command : Text)
  | openFile (name : Text)
  | readInput (i : Input) (separator : Text)
  | readNamed (kind : InputKind) (name separator : Text)
  | warn (message : Text)
  | warnAlways (message : Text)
  deriving DecidableEq

/-- The world after an operation, whether it gives a result or fails. -/
def Event.perform (w : World) : Event → World
  | .print t => ((World.print t).run w).2
  | .redirect op name t => ((World.redirect op name t).run w).2
  | .close name => ((World.close name).run w).2
  | .flush name => ((World.flush name).run w).2
  | .flushAll => (World.flushAll.run w).2
  | .flushStandard => (World.flushStandard.run w).2
  | .system command => ((World.system command).run w).2
  | .openFile name => ((World.openFile name).run w).2
  | .readInput i separator => ((World.readInput i separator).run w).2
  | .readNamed kind name separator => ((World.readNamed kind name separator).run w).2
  | .warn message => ((World.warn message).run w).2
  | .warnAlways message => ((World.warnAlways message).run w).2

/-- The event is what the action does.  A failure may be taken as its result. -/
inductive Event.Is : {α : Type} → Event → Action α → Prop
  | print (t : Text) : Is (.print t) (World.print t)
  | redirect (op : RedirectOp) (name t : Text) : Is (.redirect op name t) (World.redirect op name t)
  | close (name : Text) : Is (.close name) (World.close name)
  | flush (name : Text) : Is (.flush name) (World.flush name)
  | flushAll : Is .flushAll World.flushAll
  | flushStandard : Is .flushStandard World.flushStandard
  | system (command : Text) : Is (.system command) (World.system command)
  | openFile (name : Text) : Is (.openFile name) (World.openFile name)
  | readInput (i : Input) (separator : Text) : Is (.readInput i separator) (World.readInput i separator)
  | readNamed (kind : InputKind) (name separator : Text) :
    Is (.readNamed kind name separator) (World.readNamed kind name separator)
  | warn (message : Text) : Is (.warn message) (World.warn message)
  | warnAlways (message : Text) : Is (.warnAlways message) (World.warnAlways message)
  | observed {α : Type} {e : Event} {act : Action α} (h : Is e act) : Is e (observing act)

theorem Event.Is.run {α : Type} {e : Event} {act : Action α} (h : e.Is act) (w : World) :
    (act.run w).2 = e.perform w := by
  induction h with
  | observed h ih =>
    rw [Action.run_observing]
    exact ih
  | _ => rfl

/-- The event reads, or runs a command that shares the standard input. -/
def Event.TakesInput : Event → Prop
  | .system _ | .readInput .. | .readNamed .. => True
  | _ => False

variable {allowed : Fault → Prop} {inv : World → Prop} {w : World} {e : Event}

/-- A robust property survives all events that take no input. -/
theorem Robust.perform (h : Robust allowed inv) (he : ¬e.TakesInput) (hw : inv w) : inv (e.perform w) := by
  cases e with
  | print t => exact (h.print t w hw).1
  | redirect op name t => exact (h.redirect op name t w hw).1
  | close name => exact (h.close name w hw).1
  | flush name => exact (h.flush name w hw).1
  | flushAll => exact (h.flushAll w hw).1
  | flushStandard => exact (h.flushStandard w hw).1
  | system command => exact absurd trivial he
  | openFile name => exact (h.openFile name w hw).1
  | readInput i separator => exact absurd trivial he
  | readNamed kind name separator => exact absurd trivial he
  | warn message => exact (h.warn message w hw).1
  | warnAlways message => exact (h.warnAlways message w hw).1

theorem InputRobust.perform (h : InputRobust allowed inv) (e : Event) (hw : inv w) : inv (e.perform w) := by
  cases e with
  | system command => exact (h.system h.shared command w hw).1
  | readInput i separator => exact (h.readInput i separator w hw).1
  | readNamed kind name separator => exact (h.readNamed kind name separator w hw).1
  | _ => exact h.toRobust.perform id hw

/-- The world after operations in this order. -/
def performAll (w : World) (events : List Event) : World := events.foldl Event.perform w

theorem performAll_append (w : World) (events events' : List Event) :
    w.performAll (events ++ events') = (w.performAll events).performAll events' :=
  List.foldl_append

/-- What is done at the end of a run: all streams are closed, outputs first, and standard output is flushed. -/
def closing (w : World) : List Event :=
  let outputs := w.outputs.map fun entry => Event.close entry.1
  let inputs := (w.performAll outputs).inputs.map fun entry => Event.close entry.1
  outputs ++ inputs ++ [.flushStandard]

end Awk.World
