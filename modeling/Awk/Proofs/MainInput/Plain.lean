import Awk.Proofs.Machine.Invariant

/-!
# Programs that only take what they are given

A program that never reads records by itself, and leaves neither a file nor the run early (`Parts.Plain`), does
nothing to the main input: its rules and its other actions leave it where it is (`Machine.SameFeed`).  The standard input
that nobody has read yet is left as well, unless commands that share it take from it (`Eval.invariant_sameInput`).
Whether a program is plain can be computed (`Parts.plain_of_roots`).
-/

namespace Awk

/-- The node neither reads records nor leaves a file or the run. -/
def Node.Plain : Node → Prop
  | .expr (.getline ..) | .expr (.getlineFile ..) | .expr (.getlineCommand ..) => False
  | .stmt (.nextFile _) | .stmt (.exit ..) => False
  | _ => True

def Parts.Plain (p : Parts) : Prop := ∀ node, p.Contains node → node.Plain

/-! ### How to see that a program is plain -/

instance : DecidablePred Node.Plain := fun node => by
  unfold Node.Plain
  split <;> infer_instance

/-- The node is plain, and so are all nodes below it, which come to an end within a depth. -/
def Node.plainWithin : Nat → Node → Bool
  | 0, _ => false
  | depth + 1, node => decide node.Plain && node.children.all (plainWithin depth)

theorem Node.all_of_plainWithin {depth : Nat} {root : Node} (h : root.plainWithin depth = true) : root.All Plain := by
  have hbelow {node : Node} (hnode : root.Below node) : ∃ depth, node.plainWithin depth = true := by
    induction hnode with
    | refl => exact ⟨depth, h⟩
    | child hnode hchild ih =>
      obtain ⟨_ | depth, hwithin⟩ := ih
      · cases hwithin
      · exact ⟨depth, List.all_eq_true.1 (Bool.and_eq_true_iff.1 hwithin).2 _ hchild⟩
  intro node hnode
  obtain ⟨_ | depth, hwithin⟩ := hbelow hnode
  · cases hwithin
  · exact of_decide_eq_true (Bool.and_eq_true_iff.1 hwithin).1

/-- The nodes of a program that are below no other. -/
def Parts.roots (p : Parts) : List Node :=
  (p.begins ++ p.rules.filterMap Rule.action ++ p.ends ++ p.functions.map Function.body).map .stmt ++
    ((p.rules.filterMap Rule.selector).flatMap Selector.operands).map .expr

theorem Parts.plain_of_roots {p : Parts} {depth : Nat} (h : p.roots.all (Node.plainWithin depth) = true) : p.Plain := by
  have hroot {node : Node} (hnode : node ∈ p.roots) : node.All Node.Plain :=
    Node.all_of_plainWithin (List.all_eq_true.1 h node hnode)
  have hall {node : Node} (hnode : p.Contains node) : node.All Node.Plain := by
    induction hnode with
    | begin hs => exact hroot (by simp [roots, hs])
    | @selector r s e hr hs he =>
      refine hroot (List.mem_append_right _ (List.mem_map_of_mem (List.mem_flatMap.2 ⟨s, ?_, he⟩)))
      exact List.mem_filterMap.2 ⟨r, hr, hs⟩
    | @action r s hr hs =>
      have haction : ∃ r ∈ p.rules, r.action = some s := ⟨r, hr, hs⟩
      exact hroot (by simp [roots, haction])
    | «end» hs => exact hroot (by simp [roots, hs])
    | @body f hf =>
      have hbody : ∃ g ∈ p.functions, g.body = f.body := ⟨f, hf, rfl⟩
      exact hroot (by simp [roots, hbody])
    | child hnode hchild ih => exact ih.child hchild
  exact fun node hnode => (hall hnode).self

/-- The program, the shell and the working directory are as they were. -/
structure Machine.SamePlace (start m : Machine) : Prop where
  functions : m.functions = start.functions
  world : start.world.SamePlace m.world

theorem Machine.SamePlace.refl (m : Machine) : m.SamePlace m := ⟨rfl, rfl, rfl⟩

theorem Machine.SamePlace.trans {m₁ m₂ m₃ : Machine} (h : m₁.SamePlace m₂) (h' : m₂.SamePlace m₃) : m₁.SamePlace m₃ :=
  ⟨h'.functions.trans h.functions, h'.world.shell.trans h.world.shell, h'.world.home.trans h.world.home⟩

theorem Machine.SamePlace.after {m₁ m₂ m₃ : Machine} (h : m₂.SamePlace m₃) (hfunctions : m₂.functions = m₁.functions)
    (hworld : m₁.world.SamePlace m₂.world) : m₁.SamePlace m₃ :=
  .trans ⟨hfunctions, hworld⟩ h

/-- What only the main loop and an exit change is as it was. -/
structure Machine.SameFeed (start m : Machine) : Prop extends start.SamePlace m where
  mainInput : m.mainInput = start.mainInput
  inputFailed : m.inputFailed = start.inputFailed
  exitCode : m.exitCode = start.exitCode

theorem Machine.SameFeed.refl (m : Machine) : m.SameFeed m := ⟨.refl m, rfl, rfl, rfl⟩

/-- Nothing has been taken from the standard input by the program. -/
structure Machine.SameInput (start m : Machine) : Prop where
  functions : m.functions = start.functions
  world : start.world.SameInput m.world

theorem Machine.SameInput.refl (m : Machine) : m.SameInput m := ⟨rfl, rfl, rfl⟩

/-- The node runs a command that shares the standard input. -/
def Node.SharesInput : Node → Prop
  | .expr (.builtin _ .system _ _) => True
  | _ => False

/-- The node is plain, and if it shares the standard input, then with commands that take nothing from it. -/
def Node.TakesNothing (shell : Shell) (node : Node) : Prop := node.Plain ∧ (node.SharesInput → shell.SparesInput)

/-- The program runs commands that share the standard input. -/
def Parts.SharesInput (p : Parts) : Prop := ∃ node, p.Contains node ∧ node.SharesInput

theorem Parts.Plain.takesNothing {p : Parts} {shell : Shell} (h : p.Plain) (hshell : p.SharesInput → shell.SparesInput) :
    ∀ node, p.Contains node → node.TakesNothing shell :=
  fun node hnode => ⟨h node hnode, fun hshares => hshell ⟨node, hnode, hshares⟩⟩

namespace Eval

/-- Neither the current file nor the run is left. -/
def LeavesNothing (i : Interruption) : Prop := i ≠ .nextFile ∧ ∀ code, i ≠ .exit code

variable {start : Machine} {parts : Parts}

theorem storing_sameFeed : Storing LeavesNothing start.SameFeed where
  store _ h := ⟨⟨h.functions, h.world⟩, h.mainInput, h.inputFailed, h.exitCode⟩
  record _ h := ⟨⟨h.functions, h.world⟩, h.mainInput, h.inputFailed, h.exitCode⟩
  failure _ := ⟨nofun, nofun⟩

/-- For a plain program a property is an invariant if it outlasts what evaluations do other than reading. -/
theorem Outlasting.invariant {inv : Machine → Prop} {fine : Node → Prop} (h : Outlasting LeavesNothing inv)
    (hfine : ∀ {node}, fine node → node.Plain) (hnodes : ∀ node, parts.Contains node → fine node)
    (hsystem : ∀ {span token args}, fine (.expr (.builtin span .system token args)) → Sharing inv)
    (hruns : ∀ {m}, inv m → m.functions = parts.functions) : Invariant parts.functions fine LeavesNothing inv where
  toOutlasting := h
  runs := hruns
  bodies _ hf := Node.all_of_contains hnodes (.body hf)
  system := hsystem
  main h := absurd (hfine h) id
  file h := absurd (hfine h) id
  command h := absurd (hfine h) id
  exit h := absurd (hfine h) id
  nextFile h := absurd (hfine h) id
  next := ⟨nofun, nofun⟩
  «break» := ⟨nofun, nofun⟩
  «continue» := ⟨nofun, nofun⟩
  «return» _ := ⟨nofun, nofun⟩

/-- Rules of a program with fine nodes only keep an invariant that does not look at the ranges. -/
theorem Invariant.runAllRules {inv : Machine → Prop} {fine : Node → Prop} {allowed : Interruption → Prop}
    (h : Invariant parts.functions fine allowed inv) (hnodes : ∀ node, parts.Contains node → fine node)
    (hranges : ∀ {m} ranges, inv m → inv { m with activeRanges := ranges }) (fuel : Nat) :
    Stays inv allowed (Eval.runRules fuel 0 parts.rules) :=
  h.runRules hranges fuel 0 (fun _ hr _ hs _ he => Node.all_of_contains hnodes (.selector hr hs he))
    (fun _ hr _ hs => Node.all_of_contains hnodes (.action hr hs))

/-- Whatever a plain program evaluates leaves the main input alone. -/
theorem invariant_sameFeed (hplain : parts.Plain) (hstart : start.functions = parts.functions) :
    Invariant parts.functions Node.Plain LeavesNothing start.SameFeed :=
  have hworld {m : Machine} (e : World.Event) (h : start.SameFeed m) :
      start.SameFeed { m with world := e.perform m.world } :=
    ⟨⟨h.functions, (World.robust_samePlace start.world).perform e h.world⟩, h.mainInput, h.inputFailed, h.exitCode⟩
  have outlasting : Outlasting LeavesNothing start.SameFeed := {
    toStoring := storing_sameFeed
    random := fun _ h => ⟨⟨h.functions, h.world⟩, h.mainInput, h.inputFailed, h.exitCode⟩
    world := fun e _ => hworld e
    exhausted := ⟨nofun, nofun⟩ }
  outlasting.invariant id hplain (fun _ _ command => hworld (.system command)) fun h => h.functions.trans hstart

theorem sameFeed_runRules (hplain : parts.Plain) (hstart : start.functions = parts.functions) (fuel : Nat) :
    Stays start.SameFeed LeavesNothing (runRules fuel 0 parts.rules) :=
  (invariant_sameFeed hplain hstart).runAllRules hplain
    (fun _ h => ⟨⟨h.functions, h.world⟩, h.mainInput, h.inputFailed, h.exitCode⟩) fuel

/-- A plain program takes nothing from the standard input, unless its commands do. -/
theorem invariant_sameInput (hplain : parts.Plain) (hshell : parts.SharesInput → start.world.shell.SparesInput)
    (hstart : start.functions = parts.functions) :
    Invariant parts.functions (Node.TakesNothing start.world.shell) LeavesNothing start.SameInput :=
  have outlasting : Outlasting LeavesNothing start.SameInput := {
    store := fun _ h => ⟨h.functions, h.world⟩
    record := fun _ h => ⟨h.functions, h.world⟩
    failure := fun _ => ⟨nofun, nofun⟩
    random := fun _ h => ⟨h.functions, h.world⟩
    world := fun _ he h => ⟨h.functions, (World.robust_sameInput start.world).perform he h.world⟩
    exhausted := ⟨nofun, nofun⟩ }
  outlasting.invariant And.left (hplain.takesNothing hshell)
    (fun hnode _ command h => ⟨h.functions,
      ((World.robust_sameInput start.world).system (World.shares_sameInput (hnode.2 trivial)) command _ h.world).1⟩)
    fun h => h.functions.trans hstart

end Eval

end Awk
