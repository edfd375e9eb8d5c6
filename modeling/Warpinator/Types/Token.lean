import Mathlib.Data.List.Infix

/-! # Cancellation Tokens

    `tokio_util::sync::CancellationToken`: a tree of tokens in which cancelling
    a token cancels everything below it, for good.  A token is identified by
    the child numbers on the path from the root token, so clones of a token are
    equal. -/

namespace Warpinator

abbrev TokenId : Type := List Nat

structure Tokens where
  /-- The tokens that `cancel` has been called on. -/
  cancelled : List TokenId
  /-- The number of child tokens made so far. -/
  issued : Nat

def Tokens.isCancelled (ts : Tokens) (t : TokenId) : Bool :=
  ts.cancelled.any fun c => c.isPrefixOf t

def Tokens.cancel (ts : Tokens) (t : TokenId) : Tokens :=
  { ts with cancelled := t :: ts.cancelled }

/-- `child_token`. -/
def Tokens.child (ts : Tokens) (t : TokenId) : TokenId × Tokens :=
  (t ++ [ts.issued], { ts with issued := ts.issued + 1 })

@[simp] theorem isCancelled_cancel (ts : Tokens) (t u : TokenId) :
    (ts.cancel t).isCancelled u = (t.isPrefixOf u || ts.isCancelled u) := rfl

end Warpinator
