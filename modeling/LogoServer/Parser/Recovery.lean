import LogoServer.Parser.State

/-! Ways past what cannot be parsed: constructs that nest too deeply. -/
namespace LogoServer.Parser

/-- Reports the nesting limit the first time it is met, and in any case withholds complaints about
what the cut leaves open. -/
def complainTooDeep : Parser Unit :=
  modify fun s =>
    let s := if s.tooDeep then s else s.note (.tooDeep s.current.toLexeme s.limit)
    { s with recovering := true, tooDeep := true }

/-- Number of tokens before the closer that leaves nothing open, `depth` openers being open; all of
them if there is no such closer. -/
def closerOffset (opener closer : Kind) : (depth : Nat) → List Token → Nat
  | _, [] => 0
  | depth, t :: tokens =>
    if t.kind = closer then
      match depth with
      | 0 => 0
      | depth + 1 => closerOffset opener closer depth tokens + 1
    else if t.kind = opener then closerOffset opener closer (depth + 1) tokens + 1
    else closerOffset opener closer depth tokens + 1

def skipToCloser (opener closer : Kind) : Parser Unit := do
  skip (closerOffset opener closer 0 (← get).rest)

/-- Passes over the construct that the next token opens, or over that token alone. -/
def skipConstruct : Parser Unit := do
  let opener ← currentKind
  skip 1
  if let some closer := opener.closer? then
    skipToCloser opener closer
    if (← currentKind) = closer then
      skip 1

end LogoServer.Parser
