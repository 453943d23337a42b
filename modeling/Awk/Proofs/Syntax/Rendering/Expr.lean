import Awk.Proofs.Syntax.Rendering.Levels
import Awk.Proofs.Syntax.Rendering.Shape

/-!
# Expressions as words

How an expression that calls no function is written: every operand in parentheses, unless it is a number, a string, a
variable or an element (`Renders`).  Parentheses may stand around these too.
-/

namespace Awk

/-- A token written as its text. -/
def Token.word (token : Token) : Word := .plain token.kind token.text

namespace Word

def lpar : Word := plain .lpar ['(']

def rpar : Word := plain .rpar [')']

def lsqb : Word := plain .lsqb ['[']

def rsqb : Word := plain .rsqb [']']

def comma : Word := plain .comma [',']

def qmark : Word := plain .qmark ['?']

def colon : Word := plain .colon [':']

def dollar : Word := plain .dollar ['$']

def less : Word := plain .lt ['<']

def pipe : Word := plain .pipe ['|']

def «in» : Word := plain .in ['i', 'n']

def getline : Word := plain .getline "getline".toList

def logical : LogicalOp → Word
  | .or => plain .or ['|', '|']
  | .and => plain .and ['&', '&']

end Word

/-- What is written: an expression on its own or as an operand, a variable, element or field, expressions with commas
between them, the parts of a concatenation, and the target of `getline`. -/
inductive Piece where
  | whole
  | operand
  | lvalue
  | items
  | parts
  | target

abbrev Piece.Value : Piece → Type
  | whole | operand => Expr
  | lvalue => LValue
  | items | parts => List Expr
  | target => Option LValue

/-- The words that a piece is written as. -/
inductive Renders : (x : Piece) → x.Value → List Word → Prop
  | number {token} (hkind : token.kind = .number) : Renders .operand (.number token) [token.word]
  | string {token} : Renders .operand (.string token) [.quoted token.text]
  | var {name words} (h : Renders .lvalue (.var name) words) : Renders .operand (.lvalue (.var name)) words
  | element {span array subs subsAt words} (h : Renders .lvalue (.index span array subs subsAt) words) :
    Renders .operand (.lvalue (.index span array subs subsAt)) words
  | group {e words} (h : Renders .whole e words) : Renders .operand e (.lpar :: words ++ [.rpar])
  | name {name} (hkind : name.kind = .name) : Renders .lvalue (.var name) [name.word]
  | index {span array subs subsAt words} (hkind : array.kind = .name) (hsubs : Renders .items subs words) :
    Renders .lvalue (.index span array subs subsAt) (array.word :: .lsqb :: words ++ [.rsqb])
  | field {span index words} (hindex : Renders .operand index words) :
    Renders .lvalue (.field span index) (.dollar :: words)
  | item {e words} (he : Renders .whole e words) : Renders .items [e] words
  | items {e words es words'} (he : Renders .whole e words) (hes : Renders .items es words') :
    Renders .items (e :: es) (words ++ .comma :: words')
  | part {e words} (he : Renders .operand e words) : Renders .parts [e] words
  | parts {e words es words'} (he : Renders .operand e words) (hes : Renders .parts es words') :
    Renders .parts (e :: es) (words ++ words')
  | noTarget : Renders .target none []
  | target {target words} (h : Renders .lvalue target words) : Renders .target (some target) words
  | operand {e words} (h : Renders .operand e words) : Renders .whole e words
  | lvalue {target words} (h : Renders .lvalue target words) : Renders .whole (.lvalue target) words
  | regex {token body} (hkind : token.kind = .ere) : Renders .whole (.regex token) [.slashed body token.text]
  | assign {span target op token right words words'} (hop : AssignOp.ofKind? token.kind = some op)
    (htarget : Renders .lvalue target words) (hright : Renders .operand right words') :
    Renders .whole (.assign span target op token right) (words ++ token.word :: words')
  | conditional {span test yes no words words' words''} (htest : Renders .operand test words)
    (hyes : Renders .operand yes words') (hno : Renders .operand no words'') :
    Renders .whole (.conditional span test yes no) (words ++ .qmark :: words' ++ .colon :: words'')
  | logical {span op left right words words'} (hleft : Renders .operand left words)
    (hright : Renders .operand right words') :
    Renders .whole (.logical span op left right) (words ++ .logical op :: words')
  | member {span e subsAt array words} (hkind : array.kind = .name) (he : Renders .operand e words) :
    Renders .whole (.member span [e] subsAt array) (words ++ [.in, array.word])
  | members {span first second more subsAt array words} (hkind : array.kind = .name)
    (hitems : Renders .items (first :: second :: more) words) :
    Renders .whole (.member span (first :: second :: more) subsAt array)
      (.lpar :: words ++ [.rpar, .in, array.word])
  | matching {span left negated token right words words'}
    (hkind : token.kind = if negated then .noMatch else .tilde) (hleft : Renders .operand left words)
    (hright : Renders .operand right words') :
    Renders .whole (.matching span left negated token right) (words ++ token.word :: words')
  | compare {span left op token right words words'} (hop : CompareOp.ofKind? token.kind = some op)
    (hleft : Renders .operand left words) (hright : Renders .operand right words') :
    Renders .whole (.compare span left op token right) (words ++ token.word :: words')
  | concat {span first second more words} (hparts : Renders .parts (first :: second :: more) words) :
    Renders .whole (.concat span (first :: second :: more)) words
  | sum {span left op token right words words'} (hop : ArithOp.sum? token.kind = some op)
    (hleft : Renders .operand left words) (hright : Renders .operand right words') :
    Renders .whole (.arith span left op token right) (words ++ token.word :: words')
  | product {span left op token right words words'} (hop : ArithOp.product? token.kind = some op)
    (hleft : Renders .operand left words) (hright : Renders .operand right words') :
    Renders .whole (.arith span left op token right) (words ++ token.word :: words')
  | sign {span op token e words} (hop : SignOp.ofKind? token.kind = some op) (he : Renders .operand e words) :
    Renders .whole (.sign span op token e) (token.word :: words)
  | power {span base exponent t words words'} (hbase : Renders .operand base words)
    (hexponent : Renders .operand exponent words') :
    Renders .whole (.power span base exponent) (words ++ .plain .pow t :: words')
  | preStep {span op token target words} (hop : StepOp.ofKind? token.kind = some op)
    (htarget : Renders .lvalue target words) : Renders .whole (.preStep span op token target) (token.word :: words)
  | postStep {span target op token words} (hop : StepOp.ofKind? token.kind = some op)
    (htarget : Renders .lvalue target words) :
    Renders .whole (.postStep span target op token) (words ++ [token.word])
  | noArguments {span b token} (hkind : token.kind = .builtin b) :
    Renders .whole (.builtin span b token []) [token.word, .lpar, .rpar]
  | builtin {span b token args words} (hkind : token.kind = .builtin b) (hargs : Renders .items args words) :
    Renders .whole (.builtin span b token args) (token.word :: .lpar :: words ++ [.rpar])
  | bareLength {span token} (hkind : token.kind = .builtin .length) :
    Renders .whole (.builtin span .length token []) [token.word]
  | getline {span target words} (htarget : Renders .target target words) :
    Renders .whole (.getline span target) (.getline :: words)
  | getlineFile {span target file words words'} (htarget : Renders .target target words)
    (hfile : Renders .operand file words') :
    Renders .whole (.getlineFile span target file) (.getline :: words ++ .less :: words')
  | getlineCommand {span command target words words'} (hcommand : Renders .operand command words)
    (htarget : Renders .target target words') :
    Renders .whole (.getlineCommand span command target) (words ++ .pipe :: .getline :: words')

end Awk
