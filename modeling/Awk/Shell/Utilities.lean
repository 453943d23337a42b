import Awk.Escape
import Awk.Printf.Basic
import Awk.Shell.Arithmetic

/-!
# Utilities of the shell

What the small commands do apart from reading and writing: the text that `echo` and `printf` print, the order of
`sort`, and the signals of `kill`.
-/

namespace Awk.Shell

/-! ### Escapes -/

/-- What a letter stands for after a backslash. -/
def letterEscapes : List (Char × Char) :=
  [('\\', '\\'), ('a', '\x07'), ('b', '\x08'), ('f', '\x0c'), ('n', '\n'), ('r', '\r'), ('t', '\t'), ('v', '\x0b')]

/-- Decode escapes.  In an argument a code may have a zero before its three digits, and `\c` ends all output, as the
flag tells. -/
def unescape (argument : Bool) : Nat → Text → Text × Bool
  | 0, _ => ([], false)
  | fuel + 1, t =>
    let put (c : Char) (rest : Text) : Text × Bool :=
      let (decoded, stopped) := unescape argument fuel rest
      (c :: decoded, stopped)
    match t with
    | [] => ([], false)
    | '\\' :: c :: t =>
      if argument && c = 'c' then ([], true)
      else if argument && c = '0' then
        let (digits, rest) := takeOctal t
        put (ofOctal digits) rest
      else if isOctal c then
        let (digits, rest) := takeOctal (c :: t)
        put (ofOctal digits) rest
      else
        match letterEscapes.lookup c with
        | some d => put d t
        | none => put '\\' (c :: t)
    | c :: t => put c t

def decode (argument : Bool) (t : Text) : Text × Bool := unescape argument (t.length + 1) t

/-- What `echo` prints; a first argument `-n` leaves the newline out. -/
def echo (args : List Text) : Text :=
  let (quiet, args) := match args with
    | ['-', 'n'] :: rest => (true, rest)
    | _ => (false, args)
  let (t, stopped) := decode true (Text.join [' '] args)
  if quiet || stopped then t else t ++ ['\n']

/-! ### Formats -/

/-- The value of an argument under a numeric conversion. -/
def argumentValue (conversion : Char) (arg : Text) : Value :=
  if conversion = 's' || conversion = 'c' then .str arg
  else if "diouxX".toList.contains conversion then
    match arg with
    | '\'' :: c :: _ | '"' :: c :: _ => .ofNat c.toNat
    | '-' :: t => .ofInt (-((Arithmetic.numeral? t).getD (numericValue t).truncate))
    | '+' :: t => .ofInt ((Arithmetic.numeral? t).getD (numericValue t).truncate)
    | t => .ofInt ((Arithmetic.numeral? t).getD (numericValue t).truncate)
  else .str arg

/-- The star arguments of a directive, then its own. -/
def directiveArguments (d : Printf.Directive) (conversion : Char) (args : List Text) : List Value × List Text :=
  let stars := (if d.width = .star then 1 else 0) + if d.precision = .star then 1 else 0
  let own := if conversion = '%' then 0 else 1
  let values := (args.take stars).map fun t => Value.str t
  let last := ((args.drop stars).take own).map (argumentValue conversion)
  (values ++ last, args.drop (stars + own))

/-- One pass over a format: the text and the arguments left, and whether all output has ended. -/
def formatPass : List Printf.Segment → List Text → Text × List Text × Bool
  | [], args => ([], args, false)
  | .text t :: rest, args =>
    let (more, args, stopped) := formatPass rest args
    (t ++ more, args, stopped)
  | .directive d :: rest, args =>
    match d.conversion with
    | some 'b' =>
      let (shown, stopped) := decode true (args.headD [])
      if stopped then (shown, [], true)
      else
        let (more, args, stopped) := formatPass rest args.tail
        (shown ++ more, args, stopped)
    | conversion =>
      let (values, args) := directiveArguments d (conversion.getD '%') args
      let shown := (Printf.formatDirective (Value.toText defaultFormat) d values).toOption.elim [] Prod.fst
      let (more, args, stopped) := formatPass rest args
      (shown ++ more, args, stopped)

/-- Repeat the format until the arguments are used up. -/
def formatAll (segments : List Printf.Segment) : Nat → List Text → Text
  | 0, _ => []
  | fuel + 1, args =>
    let (shown, left, stopped) := formatPass segments args
    if stopped || left.isEmpty || left.length = args.length then shown else shown ++ formatAll segments fuel left

/-- What `printf` prints. -/
def printf (format : Text) (args : List Text) : Text :=
  formatAll (Printf.segments (decode false format).1) (args.length + 1) args

/-! ### Sorting -/

structure SortOptions where
  numeric : Bool
  reverse : Bool
  unique : Bool
  deriving DecidableEq, Repr

/-- Take the letters of option words; none if one is unknown. -/
def SortOptions.add? (o : SortOptions) : Text → Option SortOptions
  | [] => some o
  | 'n' :: t => add? { o with numeric := true } t
  | 'r' :: t => add? { o with reverse := true } t
  | 'u' :: t => add? { o with unique := true } t
  | _ => none

/-- The number at the start of a line, without exponent. -/
def lineNumber (line : Text) : Number :=
  let t := line.dropWhile fun c => c == ' ' || c == '\t'
  let (negative, t) := match t with
    | '-' :: t => (true, t)
    | t => (false, t)
  let whole := t.takeWhile Char.isDigit
  let fraction := match t.drop whole.length with
    | '.' :: t => '.' :: t.takeWhile Char.isDigit
    | _ => []
  let n := numericValue (whole ++ fraction)
  if negative then n.neg else n

namespace SortOptions

/-- The order of two lines by their keys. -/
def compareKeys (o : SortOptions) (a b : Text) : Ordering :=
  if o.numeric then (Number.compare? (lineNumber a) (lineNumber b)).getD .eq else Text.compare a b

/-- The order of two lines; equal keys leave it to the whole lines unless one line of each key is kept. -/
def compareLines (o : SortOptions) (a b : Text) : Ordering :=
  let order := match o.compareKeys a b with
    | .eq => if o.unique then .eq else Text.compare a b
    | order => order
  if o.reverse then order.swap else order

/-- Drop every line with the key of the line before it. -/
def dedupe (o : SortOptions) : List Text → List Text
  | a :: b :: rest => if o.compareKeys a b = .eq then dedupe o (a :: rest) else a :: dedupe o (b :: rest)
  | lines => lines
termination_by lines => lines.length

def sort (o : SortOptions) (lines : List Text) : List Text :=
  let sorted := lines.mergeSort fun a b => o.compareLines a b != .gt
  if o.unique then o.dedupe sorted else sorted

end SortOptions

/-- The lines of a text; a last line may lack its newline. -/
def linesOf (t : Text) : List Text :=
  let pieces := Text.splitOn (· == '\n') t
  if pieces.getLast? = some [] then pieces.dropLast else pieces

/-! ### Signals -/

/-- The signals that end a process. -/
def signals : List (String × Nat) :=
  [("HUP", 1), ("INT", 2), ("QUIT", 3), ("ILL", 4), ("TRAP", 5), ("ABRT", 6), ("BUS", 7), ("FPE", 8), ("KILL", 9),
   ("USR1", 10), ("SEGV", 11), ("USR2", 12), ("PIPE", 13), ("ALRM", 14), ("TERM", 15), ("STKFLT", 16), ("XCPU", 24),
   ("XFSZ", 25), ("VTALRM", 26), ("PROF", 27), ("PWR", 30), ("SYS", 31)]

def number? (t : Text) : Option Nat :=
  if t.isEmpty || t.any (!·.isDigit) then none
  else some (t.foldl (fun n d => 10 * n + (d.toNat - '0'.toNat)) 0)

/-- A signal by name or number. -/
def signal? (t : Text) : Option Nat :=
  match number? t with
  | some n => some n
  | none => signals.findSome? fun (s, n) => if s.toList = t.map Char.toUpper then some n else none

/-- A process ends on this signal. -/
def isFatal (signal : Nat) : Bool := signals.any fun (_, n) => n == signal

/-- Signal and processes of the arguments of `kill`. -/
def killArguments? : List Text → Option (Nat × List Text)
  | ['-', 's'] :: name :: rest => (signal? name).map (·, rest)
  | ['-', '-'] :: rest => some (15, rest)
  | ('-' :: name) :: rest => (signal? name).map (·, rest)
  | rest => some (15, rest)

end Awk.Shell
