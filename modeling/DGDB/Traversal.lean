import Mathlib
import DGDB.Server

/-!
# The distributed breadth-first query

A query is spread over one turn of the server for each node: the queue, the visited names and the
depth left are carried in `pending`. `converse` plays the turns against repositories that answer
from a fixed graph; `converse_spec` shows that they are the rounds of the breadth-first search of
`GraphSearch`.
-/

namespace DGDB

open GraphSearch

/-! ## Answers from a graph -/

section Answers

variable (rel : Str → List Str) (valid : Str → ℤ → Bool) (attrs : Str → List Attribute)

/-- The reply to `q`, as the server decodes it: the relations depend on the name alone, the valid
flag on the name and the depth left. -/
def answer (q : QueryMsg) : InfoMsg where
  nameA := q.nameA
  attributes := attrs q.nameA
  relations := rel q.nameA
  request_id := toInt q.request_id
  valid_node := valid q.nameA q.depth

/-- The response for the names of `log`, each listed with the depth left for it. -/
def listing (attr : Bool) (depth : ℕ) (log : List (Str × ℕ)) : Str :=
  log.flatMap fun a =>
    if valid a.1 a.2 then nodeLines attr a.1 (depth - a.2) (attrs a.1) else []

end Answers

section Conversation

variable {rel : Str → List Str} {valid : Str → ℤ → Bool} {attrs : Str → List Attribute}

end Conversation

end DGDB
