import SlimeBoard.Lib.PyDict

/-!
# Sessions of the inference server

`Session.create_req` appends the ids of a request to what the session remembers of
an earlier one. Nodes are objects that several lists and the dictionary share, so
they live in a heap and are named by their index in it.
-/

namespace SlimeBoard

/-! ## Requests -/

structure Req where
  rid : Nat
  originInputIds : List Nat
  outputIds : List Nat
  maxNewTokens : Nat
  /-- `finished_reason is not None` -/
  finished : Bool
  /-- `to_finish` is an abort -/
  toFinish : Bool

structure SessionParams where
  rid : Option Nat
  offset : Option Int
  replace : Option Bool
  dropPreviousOutput : Option Bool

structure TokenizedReq where
  rid : Nat
  inputIds : List Nat
  maxNewTokens : Nat
  sessionParams : SessionParams

structure Tokenizer where
  bosTokenId : Option Nat

/-- `xs[:k]` -/
def sliceTo (xs : List Nat) (k : Int) : List Nat :=
  if 0 ≤ k then xs.take k.toNat else xs.take (xs.length + k).toNat

/-- `x` is set and true. -/
def truthy (x : Option Bool) : Bool := x.getD false

/-! ## The session tree -/

/-- `SessionReqNode`; the parent is never read. -/
structure SessionReqNode where
  req : Req
  children : List Nat

structure Session where
  heap : List SessionReqNode
  reqNodes : Dict Nat Nat

namespace Session

def empty : Session := ⟨[], ∅⟩

def node (s : Session) (id : Nat) : Py SessionReqNode :=
  match s.heap[id]? with
  | some node => .ok node
  | none => .error .indexError

/-- `SessionReqNode.abort` -/
def abort (id : Nat) (s : Session) : Session :=
  { s with heap := s.heap.modify id fun node =>
      if node.req.finished then node else { node with req := { node.req with toFinish := true } } }

/-- `SessionReqNode.clear`. A child is younger than its parent, so the heap bounds
the depth. -/
def clear : Nat → Nat → Session → Py Session
  | 0, _, _ => .error .diverges
  | fuel + 1, id, s => do
    let node ← s.node id
    let s ← node.children.foldlM (fun s child => clear fuel child s) s
    let reqNodes ← s.reqNodes.del node.req.rid
    return { s.abort id with reqNodes }

/-- `SessionReqNode.clear_children` -/
def clearChildren (id : Nat) (s : Session) : Py Session := do
  let node ← s.node id
  let s ← node.children.foldlM (fun s child => clear s.heap.length child s) s
  return { s with heap := s.heap.modify id fun node => { node with children := [] } }

/-- The node to continue from, and whether the request is invalid. -/
def lastNode (params : SessionParams) (s : Session) : Py (Session × Option Nat × Bool) :=
  if truthy params.replace then
    match params.rid with
    | none =>
      -- clearing a node changes the dictionary that the loop iterates over
      match s.reqNodes.entries with
      | [] => .ok (s, none, false)
      | entry :: _ => do
        let _ ← clear s.heap.length entry.2 s
        .error .runtimeError
    | some rid =>
      match s.reqNodes.lookup rid with
      | none => .ok (s, none, true)
      | some id => do
        let s ← clearChildren id (s.abort id)
        return (s, some id, false)
  else
    match params.rid with
    | none => .ok (s, none, false)
    | some rid =>
      match s.reqNodes.lookup rid with
      | none => .ok (s, none, true)
      | some id => do
        let node ← s.node id
        return (s, some id, !node.req.finished)

/-- The ids of a request that continues `last`. -/
def assemble (tokenizer : Option Tokenizer) (params : SessionParams) (last : Req) (inputIds : List Nat) :
    Py (List Nat) := do
  let inputIds ← (match tokenizer with
    | none => .ok inputIds
    | some tokenizer =>
      match inputIds with
      | [] => .error .indexError
      | first :: rest => .ok (if tokenizer.bosTokenId = some first then rest else inputIds) : Py (List Nat))
  let previous :=
    if truthy params.dropPreviousOutput then last.originInputIds
    else last.originInputIds ++ last.outputIds.take last.maxNewTokens
  match params.offset with
  | none => return previous ++ inputIds
  | some offset => return if offset = 0 then previous ++ inputIds else sliceTo previous offset ++ inputIds

/-- `Session.create_req` -/
def createReq (tokenizer : Option Tokenizer) (req : TokenizedReq) (s : Session) : Py (Req × Session) := do
  let (s, last, abort) ← s.lastNode req.sessionParams
  let inputIds ← (match last with
    | none => .ok req.inputIds
    | some id => do
      let node ← s.node id
      assemble tokenizer req.sessionParams node.req req.inputIds)
  if abort then
    -- `set_finish_with_abort`
    return (⟨req.rid, [0], [], req.maxNewTokens, false, true⟩, s)
  else
    let newReq : Req := ⟨req.rid, inputIds, [], req.maxNewTokens, false, false⟩
    let heap := match last with
      | none => s.heap
      | some id => s.heap.modify id fun node => { node with children := node.children ++ [s.heap.length] }
    return (newReq, ⟨heap ++ [⟨newReq, []⟩], s.reqNodes.insert req.rid s.heap.length⟩)

/-- The scheduler has generated `outputIds` for request `rid`. -/
def finish (rid : Nat) (outputIds : List Nat) (s : Session) : Session :=
  match s.reqNodes.lookup rid with
  | none => s
  | some id =>
    { s with heap := s.heap.modify id fun node =>
        { node with req := { node.req with outputIds, finished := true } } }

/-! ## Appending to a finished request -/

/-- The session remembers request `rid` with the ids `context` and the output. -/
def Remembers (s : Session) (rid : Nat) (context outputIds : List Nat) (maxNewTokens : Nat) : Prop :=
  ∃ id node, s.reqNodes.lookup rid = some id ∧ s.heap[id]? = some node ∧
    node.req.originInputIds = context ∧ node.req.outputIds = outputIds ∧
    node.req.maxNewTokens = maxNewTokens ∧ node.req.finished = true

/-- The ids of a request without the leading token that the server trims. -/
def trimmed (tokenizer : Option Tokenizer) (inputIds : List Nat) : List Nat :=
  match tokenizer, inputIds with
  | some tokenizer, first :: rest => if tokenizer.bosTokenId = some first then rest else inputIds
  | _, _ => inputIds

variable {tokenizer : Option Tokenizer} {s : Session} {rid rid' maxNewTokens maxNewTokens' : Nat}
  {context inputIds outputIds outputIds' : List Nat}

/-- A request that was just added is remembered once it is finished. -/
theorem remembers_finish {heap : List SessionReqNode} {reqNodes : Dict Nat Nat} :
    (finish rid outputIds ⟨heap ++ [⟨⟨rid, context, [], maxNewTokens, false, false⟩, []⟩],
      reqNodes.insert rid heap.length⟩).Remembers rid context outputIds maxNewTokens := by
  have found : (reqNodes.insert rid heap.length).lookup rid = some heap.length := by
    rw [Dict.lookup_insert, if_pos rfl]
  unfold finish
  rw [found]
  refine ⟨heap.length, ⟨⟨rid, context, outputIds, maxNewTokens, true, false⟩, []⟩, found, ?_, rfl, rfl, rfl, rfl⟩
  dsimp only
  rw [List.getElem?_modify_eq]
  simp

theorem createReq_first (rid : Nat) (inputIds : List Nat) (maxNewTokens : Nat) (s : Session) :
    s.createReq tokenizer ⟨rid, inputIds, maxNewTokens, ⟨none, none, none, none⟩⟩ =
      .ok (⟨rid, inputIds, [], maxNewTokens, false, false⟩,
        ⟨s.heap ++ [⟨⟨rid, inputIds, [], maxNewTokens, false, false⟩, []⟩], s.reqNodes.insert rid s.heap.length⟩) :=
  rfl

/-- **A continued request** gets the earlier ids, the earlier output and the new ids. -/
theorem createReq_append (remembers : s.Remembers rid context outputIds maxNewTokens) (rid' : Nat)
    (nonempty : inputIds ≠ []) (maxNewTokens' : Nat) :
    ∃ heap, heap.length = s.heap.length ∧
      s.createReq tokenizer ⟨rid', inputIds, maxNewTokens', ⟨some rid, none, none, none⟩⟩ =
        .ok (⟨rid', context ++ outputIds.take maxNewTokens ++ trimmed tokenizer inputIds, [], maxNewTokens', false,
            false⟩,
          ⟨heap ++ [⟨⟨rid', context ++ outputIds.take maxNewTokens ++ trimmed tokenizer inputIds, [],
            maxNewTokens', false, false⟩, []⟩], s.reqNodes.insert rid' s.heap.length⟩) := by
  obtain ⟨id, node, found, stored, rfl, rfl, rfl, finished⟩ := remembers
  have read : s.node id = .ok node := by
    rw [Session.node, stored]
  have last : s.lastNode ⟨some rid, none, none, none⟩ = .ok (s, some id, false) := by
    unfold lastNode
    dsimp only
    rw [if_neg (show ¬ truthy none = true from Bool.false_ne_true), found]
    dsimp only
    rw [read, Py.ok_bind, finished]
    rfl
  have ids : assemble tokenizer ⟨some rid, none, none, none⟩ node.req inputIds =
      .ok (node.req.originInputIds ++ node.req.outputIds.take node.req.maxNewTokens ++ trimmed tokenizer inputIds) := by
    cases tokenizer with
    | none => rfl
    | some tokenizer =>
      cases inputIds with
      | nil => exact absurd rfl nonempty
      | cons first rest => rfl
  refine ⟨s.heap.modify id fun node => { node with children := node.children ++ [s.heap.length] }, by simp, ?_⟩
  unfold createReq
  rw [last, Py.ok_bind]
  simp only [read, Py.ok_bind, ids]
  rfl

end Session

end SlimeBoard
