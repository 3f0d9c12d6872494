/-! The reserved words of Logo. -/
namespace LogoServer

/-- A reserved word. Each spelling is a keyword of its own, so a short form such as `fd` stands
beside its long form. A constructor whose plain name Lean reserves ends in an underscore. -/
inductive Keyword where
  | forward | fd | back | bk | left | lt | right | rt | home | setx | sety | setxy | set | pos
  | setheading | seth | arc | ellipse | showturtle | st | hideturtle | ht | clean | clearscreen
  | cs | fill | filled | label | print | show_ | setlabelheight | wrap | window | fence | penup
  | pu | pendown | pd | setcolor | setpencolor | setwidth | setpensize | changeshape | csh | to
  | end_ | define | make | name | localmake | repeat_ | for_ | repcount | if_ | ifelse | test
  | iftrue | iffalse | wait | bye | dotimes | doWhile | while_ | doUntil | until_ | xcor | ycor
  | heading | towards | shownp | shownQ | labelsize | pendownp | pendownQ | pencolor | pc
  | pensize | def_ | thing | list | first | butfirst | last | butlast | item | pick | sum | minus
  | random | modulo | power | readword | readlist | wordp | wordQ | listp | listQ | arrayp
  | arrayQ | numberp | numberQ | emptyp | emptyQ | equalp | equalQ | notequalp | notequalQ
  | beforep | beforeQ | substringp | substringQ
  deriving DecidableEq, Repr

namespace Keyword

/-- Spelling of a keyword, always in lower case. -/
def text : Keyword → String
  | .forward => "forward"
  | .fd => "fd"
  | .back => "back"
  | .bk => "bk"
  | .left => "left"
  | .lt => "lt"
  | .right => "right"
  | .rt => "rt"
  | .home => "home"
  | .setx => "setx"
  | .sety => "sety"
  | .setxy => "setxy"
  | .set => "set"
  | .pos => "pos"
  | .setheading => "setheading"
  | .seth => "seth"
  | .arc => "arc"
  | .ellipse => "ellipse"
  | .showturtle => "showturtle"
  | .st => "st"
  | .hideturtle => "hideturtle"
  | .ht => "ht"
  | .clean => "clean"
  | .clearscreen => "clearscreen"
  | .cs => "cs"
  | .fill => "fill"
  | .filled => "filled"
  | .label => "label"
  | .print => "print"
  | .show_ => "show"
  | .setlabelheight => "setlabelheight"
  | .wrap => "wrap"
  | .window => "window"
  | .fence => "fence"
  | .penup => "penup"
  | .pu => "pu"
  | .pendown => "pendown"
  | .pd => "pd"
  | .setcolor => "setcolor"
  | .setpencolor => "setpencolor"
  | .setwidth => "setwidth"
  | .setpensize => "setpensize"
  | .changeshape => "changeshape"
  | .csh => "csh"
  | .to => "to"
  | .end_ => "end"
  | .define => "define"
  | .make => "make"
  | .name => "name"
  | .localmake => "localmake"
  | .repeat_ => "repeat"
  | .for_ => "for"
  | .repcount => "repcount"
  | .if_ => "if"
  | .ifelse => "ifelse"
  | .test => "test"
  | .iftrue => "iftrue"
  | .iffalse => "iffalse"
  | .wait => "wait"
  | .bye => "bye"
  | .dotimes => "dotimes"
  | .doWhile => "do.while"
  | .while_ => "while"
  | .doUntil => "do.until"
  | .until_ => "until"
  | .xcor => "xcor"
  | .ycor => "ycor"
  | .heading => "heading"
  | .towards => "towards"
  | .shownp => "shownp"
  | .shownQ => "shown?"
  | .labelsize => "labelsize"
  | .pendownp => "pendownp"
  | .pendownQ => "pendown?"
  | .pencolor => "pencolor"
  | .pc => "pc"
  | .pensize => "pensize"
  | .def_ => "def"
  | .thing => "thing"
  | .list => "list"
  | .first => "first"
  | .butfirst => "butfirst"
  | .last => "last"
  | .butlast => "butlast"
  | .item => "item"
  | .pick => "pick"
  | .sum => "sum"
  | .minus => "minus"
  | .random => "random"
  | .modulo => "modulo"
  | .power => "power"
  | .readword => "readword"
  | .readlist => "readlist"
  | .wordp => "wordp"
  | .wordQ => "word?"
  | .listp => "listp"
  | .listQ => "list?"
  | .arrayp => "arrayp"
  | .arrayQ => "array?"
  | .numberp => "numberp"
  | .numberQ => "number?"
  | .emptyp => "emptyp"
  | .emptyQ => "empty?"
  | .equalp => "equalp"
  | .equalQ => "equal?"
  | .notequalp => "notequalp"
  | .notequalQ => "notequal?"
  | .beforep => "beforep"
  | .beforeQ => "before?"
  | .substringp => "substringp"
  | .substringQ => "substring?"

/-- Keywords listed in messages before the brackets. -/
def leading : List Keyword := [
    .forward, .fd, .back, .bk, .left, .lt, .right, .rt, .home, .setx, .sety, .setxy, .set, .pos]

/-- Keywords listed between the brackets and the parentheses. -/
def middle : List Keyword := [
    .setheading, .seth, .arc, .ellipse, .showturtle, .st, .hideturtle, .ht, .clean, .clearscreen,
    .cs, .fill, .filled, .label, .print, .show_, .setlabelheight, .wrap, .window, .fence, .penup,
    .pu, .pendown, .pd, .setcolor, .setpencolor, .setwidth, .setpensize, .changeshape, .csh, .to,
    .end_, .define, .make, .name, .localmake, .repeat_, .for_, .repcount, .if_, .ifelse, .test,
    .iftrue, .iffalse, .wait, .bye, .dotimes, .doWhile, .while_, .doUntil, .until_, .xcor, .ycor,
    .heading, .towards, .shownp, .shownQ, .labelsize, .pendownp, .pendownQ, .pencolor, .pc,
    .pensize, .def_, .thing]

/-- Keywords listed after the parentheses. -/
def trailing : List Keyword := [
    .list, .first, .butfirst, .last, .butlast, .item, .pick, .sum, .minus, .random, .modulo,
    .power, .readword, .readlist, .wordp, .wordQ, .listp, .listQ, .arrayp, .arrayQ, .numberp,
    .numberQ, .emptyp, .emptyQ, .equalp, .equalQ, .notequalp, .notequalQ, .beforep, .beforeQ,
    .substringp, .substringQ]

def all : List Keyword := leading ++ middle ++ trailing

def lookup (spelling : String) : Option Keyword :=
  all.find? (fun k => k.text == spelling)

/-- A spelling in camel case: a dot joins two words, a question mark is written `Q`. -/
def camelCase (capital : Bool) : List Char → List Char
  | [] => []
  | '.' :: rest => camelCase true rest
  | '?' :: rest => 'Q' :: camelCase false rest
  | c :: rest => (if capital then c.toUpper else c) :: camelCase false rest

def tag (k : Keyword) : String :=
  String.ofList (camelCase true k.text.toList)

end Keyword

end LogoServer
