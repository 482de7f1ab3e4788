/-! Requests and replies. What serves requests has a state; each request is replied to from the state that
the one before left. The log of the exchanges is all that can be seen of it from outside. -/

set_option autoImplicit false

namespace Orchestration

namespace Service

structure Exchange (Request Reply : Type) where
  request : Request
  reply : Reply
  deriving DecidableEq, Repr

variable {State Request Reply : Type} (serve : State → Request → Reply × State)

/-- Requests one after another; each reply stands with the state it leaves. -/
def run (state : State) : List Request → List (Reply × State)
  | [] => []
  | request :: rest => serve state request :: run (serve state request).2 rest

def exchange (state : State) (request : Request) : Exchange Request Reply :=
  ⟨request, (serve state request).1⟩

def history (state : State) (requests : List Request) : List (Exchange Request Reply) :=
  List.zipWith Exchange.mk requests ((run serve state requests).map Prod.fst)

def after (state : State) (requests : List Request) : State :=
  requests.foldl (fun state request => (serve state request).2) state

theorem history_nil (state : State) : history serve state [] = [] := rfl

theorem history_cons (state : State) (request : Request) (rest : List Request) :
    history serve state (request :: rest) =
      exchange serve state request :: history serve (serve state request).2 rest := rfl

theorem after_cons (state : State) (request : Request) (rest : List Request) :
    after serve state (request :: rest) = after serve (serve state request).2 rest := rfl

theorem after_concat (state : State) (requests : List Request) (request : Request) :
    after serve state (requests ++ [request]) = (serve (after serve state requests) request).2 := by
  simp [after]

theorem history_concat (state : State) (requests : List Request) (request : Request) :
    history serve state (requests ++ [request]) =
      history serve state requests ++ [exchange serve (after serve state requests) request] := by
  induction requests generalizing state with
  | nil => rfl
  | cons first rest ih => rw [List.cons_append, history_cons, history_cons, ih, after_cons, List.cons_append]

end Service

end Orchestration
