import LogoServer.Parser.State

/-! Repetition. Each loop is bounded by the tokens ahead of it. -/
namespace LogoServer.Parser

/-- Adds to `found`, newest first, what `item` builds while the next kind passes the test, at most
once for each element of the budget. -/
def collect (more : Kind → Bool) (item : Parser α) : (budget : List β) → (found : List α) →
    Parser (List α)
  | [], found => return found.reverse
  | _ :: budget, found => do
    if more (← currentKind) then
      collect more item budget ((← item) :: found)
    else
      return found.reverse

def atMost (bound : Nat) (more : Kind → Bool) (item : Parser α) : Parser (List α) :=
  collect more item (List.replicate bound ()) []

/-- Repeats `item` while the next kind passes the test. An item that starts there takes or passes
over a token, so there are no more items than tokens ahead. -/
def many (more : Kind → Bool) (item : Parser α) : Parser (List α) := do
  collect more item (← get).rest []

def times (item : Parser α) : Nat → Parser (List α)
  | 0 => return []
  | n + 1 => return (← item) :: (← times item n)

/-- Inputs within an arity: those required, then more while an expression starts. -/
def inputs (arity : Arity) (item : Parser α) : Parser (List α) :=
  return (← times item arity.least) ++ (← atMost (arity.most - arity.least) Kind.startsExpr item)

end LogoServer.Parser
