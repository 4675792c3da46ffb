import SlimeBoard.Board.Run
import SlimeBoard.Rollout.Session

/-!
# Self-play games

`generate_junqi` plays one game of four seats against an inference engine and
records it as two samples, one for each group of seats. An engine answers a request
with a token of the request's logits mask.
-/

namespace SlimeBoard

/-! ## Prompts -/

/-- `role_map` -/
def roleMap : Role → String :=
  ![
    "Mine", "Commander", "General", "Division Commander", "Brigade Commander", "Regiment Commander",
    "Battalion Commander", "Company Commander", "Platoon Leader", "Engineer", "Bomb", "Flag"]

/-- `generate_prompt`; `encode` applies the chat template and tokenizes. -/
def generatePrompt (encode : String → List Nat) (layout : List Role) : List Nat :=
  let role := layout.map roleMap
  let lower := role.take 25
  let upper := role.drop 25
  encode ("You are playing Chinese Military Chess. " ++
    "Your layout is divided into two parts: " ++
    "The lower half consists of " ++ ", ".intercalate lower ++ ". " ++
    "The upper half consists of " ++ ", ".intercalate upper ++ ".")

/-! ## The engine -/

/-- The payload of a request: `max_new_tokens` is 1, and of the session parameters only
`rid` is set. -/
structure Request where
  inputIds : List Nat
  rid : Option Nat
  logitsMask : List Nat

structure Reply where
  /-- `meta_info.id` -/
  id : Nat
  outputIds : List Nat
  /-- `meta_info.output_token_logprobs[0][0]` -/
  logprob : ℚ

/-- An engine that respects the logits mask. It may answer differently at every turn. -/
structure Engine where
  generate : Nat → Request → Reply
  legal : ∀ i request, request.logitsMask ≠ [] →
    ∃ token rest, (generate i request).outputIds = token :: rest ∧ token ∈ request.logitsMask

/-- An engine that plays a script as far as the script is legal. -/
def Engine.scripted (script : Nat → Nat) : Engine where
  generate i request :=
    ⟨i, [if script i ∈ request.logitsMask then script i else request.logitsMask.headD 0], 0⟩
  legal i request nonempty := by
    refine ⟨_, [], rfl, ?_⟩
    split
    · assumption
    · obtain ⟨token, rest, same⟩ := List.exists_cons_of_ne_nil nonempty
      rw [same]
      exact List.mem_cons_self ..

/-- The server assembles the context of a request and remembers the reply. -/
def Session.serve (tokenizer : Option Tokenizer) (request : Request) (reply : Reply) (s : Session) :
    Py (List Nat × Session) := do
  let (req, s) ← s.createReq tokenizer ⟨reply.id, request.inputIds, 1, ⟨request.rid, none, none, none⟩⟩
  return (req.originInputIds, s.finish reply.id reply.outputIds)

/-! ## The game loop -/

def flagsIds : List Nat := [157600, 157601, 157602, 157603, 157604, 157605, 157606, 157607]

def deadIds : List Nat := [157608, 157609, 157610, 157611]

def resultIds : List Nat := [157612, 157613, 157614, 157615]

/-- The local variables of `generate_junqi`, with the two sessions on the server. -/
structure Junqi where
  board : Board
  prompt : Fin 2 → List Nat
  sessions : Fin 2 → Session
  reqId : Fin 2 → Option Nat
  buffer : List Nat
  idx : Fin 2 → Nat
  lossMask : Fin 2 → List Nat
  logitsMasks : Fin 2 → List (List Nat)
  rewardList : Fin 2 → List (List ℚ)
  rolloutLogProbs : Fin 2 → List ℚ
  deadPlayersSet : List Player
  isComplete : Bool
  /-- `break` was executed. -/
  stopped : Bool

/-- What happened at a turn with a request. -/
structure Event where
  player : Player
  request : Request
  /-- The token context the server assembled. -/
  context : List Nat
  /-- The response buffer at the time of the request. -/
  buffer : List Nat
  action : Nat
  reward : ℚ

/-- `reward_list[-1].append(reward)`, if there is a last list -/
def appendLast : List (List ℚ) → ℚ → List (List ℚ)
  | [], _ => []
  | [rewards], reward => [rewards ++ [reward]]
  | rewards :: next :: rest, reward => rewards :: appendLast (next :: rest) reward

namespace Junqi

def start (encode : String → List Nat) (board : Board) : Junqi where
  board := board
  prompt := fun g => generatePrompt encode (board.getLayout g)
  sessions := fun _ => .empty
  reqId := fun _ => none
  buffer := []
  idx := fun _ => 0
  lossMask := fun _ => []
  logitsMasks := fun _ => []
  rewardList := fun _ => []
  rolloutLogProbs := fun _ => []
  deadPlayersSet := []
  isComplete := false
  stopped := false

/-- Extend the buffer, and the loss masks and log-probs of both groups. -/
def record (g : Fin 2) (tokens mask : List Nat) (probs : List ℚ) (s : Junqi) : Junqi :=
  { s with
    buffer := s.buffer ++ tokens
    lossMask := fun g' => s.lossMask g' ++ if g' = g then mask else List.replicate tokens.length 0
    rolloutLogProbs := fun g' =>
      s.rolloutLogProbs g' ++ if g' = g then probs else List.replicate tokens.length 0 }

/-- Tokens that nobody has chosen. -/
def announce (g : Fin 2) (tokens : List Nat) (s : Junqi) : Junqi :=
  s.record g tokens (List.replicate tokens.length 0) (List.replicate tokens.length 0)

/-- The chosen token, and the result unless it is a skip. -/
def recordAction (g : Fin 2) (action resultId : Nat) (logprob : ℚ) (s : Junqi) : Py Junqi :=
  if resultId = 4 then do
    pyAssert (action == 157599)
    return s.record g [157599] [1] [logprob]
  else do
    let result ← pyIndex resultIds resultId
    return s.record g [action, result] [1, 0] [logprob, 0]

/-- The reward opens a list of the group and continues the last list of the other. -/
def credit (g : Fin 2) (reward : ℚ) (s : Junqi) : Junqi :=
  { s with rewardList := fun g' =>
      if g' = g then s.rewardList g' ++ [[reward]] else appendLast (s.rewardList g') (-reward) }

/-- The test for the end of the game, by the size of the set of dead players. -/
def ended (deadPlayersSet : List Player) : Bool :=
  if deadPlayersSet.length = 3 then true
  else
    match deadPlayersSet with
    | [a, b] => ((a.val : Int) - b.val).natAbs == 2
    | _ => false

def checkEnd (s : Junqi) : Junqi :=
  if ended s.deadPlayersSet then { s with isComplete := true, stopped := true } else s

/-- The flags and the deaths of an outcome. -/
def report (g : Fin 2) (out : Board.Outcome) (s : Junqi) : Py Junqi := do
  let s ← (if out.flags ≠ [] then do
      let ids ← out.flags.mapM (pyIndex flagsIds)
      pure (s.announce g ids)
    else pure s)
  if out.deadPlayers ≠ [] then
    let ids ← out.deadPlayers.mapM fun p => pyIndex deadIds p.val
    let s := s.announce g ids
    return checkEnd { s with deadPlayersSet := out.deadPlayers ∪ s.deadPlayersSet }
  else return s

/-- `np.where(action_mask)[0] + 151665` -/
@[irreducible] def maskIds (mask : ActionMask) : List Nat := ((List.range 5935).filter mask).map (· + 151665)

/-- The request of group `g`. -/
def request (g : Fin 2) (mask : ActionMask) (s : Junqi) : Request :=
  let bufSlice := s.buffer.drop (s.idx g)
  ⟨if s.reqId g = none then s.prompt g ++ bufSlice else bufSlice, s.reqId g, maskIds mask⟩

section Loop

variable (ord : RailOrder) (tokenizer : Option Tokenizer) (engine : Engine)

/-- One turn of the loop. -/
def turn (i : Nat) (s : Junqi) : Py (Junqi × Option Event) :=
  let player : Player := Fin.ofNat 4 i
  let g : Fin 2 := Fin.ofNat 2 i
  if player ∈ s.deadPlayersSet then return (s.record g [157599] [0] [0], none)
  else do
    let (actionMask, board) ← s.board.getActionMask ord player
    match actionMask with
    | none => .error .assertionError
    | some mask =>
      let request := s.request g mask
      let reply := engine.generate i request
      let (context, session) ← (s.sessions g).serve tokenizer request reply
      let action ← pyIndex reply.outputIds 0
      let (board, out) ← board.update ord player (action - 151665)
      let event : Event := ⟨player, request, context, s.buffer, action, out.reward⟩
      let s := { s with
        board
        idx := Function.update s.idx g s.buffer.length
        sessions := Function.update s.sessions g session
        reqId := Function.update s.reqId g (some reply.id) }
      let s ← s.recordAction g action out.result reply.logprob
      let s := s.credit g out.reward
      let s := { s with logitsMasks := Function.update s.logitsMasks g (s.logitsMasks g ++ [request.logitsMask]) }
      let s ← s.report g out
      return (s, some event)

/-- A turn, unless the loop has been left, with the events so far. -/
def step (st : Junqi × List Event) (i : Nat) : Py (Junqi × List Event) :=
  if st.1.stopped then .ok st
  else do
    let (s, event) ← turn ord tokenizer engine i st.1
    return (s, st.2 ++ event.toList)

/-- The state after `k` turns. -/
def run (s : Junqi) (k : Nat) : Py (Junqi × List Event) :=
  (List.range k).foldlM (step ord tokenizer engine) (s, [])

end Loop

end Junqi

/-! ## The samples -/

inductive Status where
  | completed
  | truncated
  deriving DecidableEq, Repr

structure Sample where
  tokens : List Nat
  responseLength : Nat
  reward : List (List ℚ)
  status : Status
  lossMask : List Nat
  rolloutLogProbs : List ℚ
  logitsMasks : List (List Nat)

/-- The response part of the tokens. -/
def Sample.response (s : Sample) : List Nat := s.tokens.drop (s.tokens.length - s.responseLength)

def Junqi.sample (s : Junqi) (g : Fin 2) : Sample where
  tokens := s.prompt g ++ s.buffer
  responseLength := s.buffer.length
  reward := s.rewardList g
  status := if s.isComplete then .completed else .truncated
  lossMask := s.lossMask g
  rolloutLogProbs := s.rolloutLogProbs g
  logitsMasks := s.logitsMasks g

/-- `generate_junqi`, with the layouts that `Board()` draws. -/
def generateJunqi (ord : RailOrder) (tokenizer : Option Tokenizer) (encode : String → List Nat) (engine : Engine)
    (layout : Player → List Role) : Py ((Fin 2 → Sample) × List Event) := do
  let board ← Board.new layout
  let (s, events) ← Junqi.run ord tokenizer engine (.start encode board) 400
  return (s.sample, events)

end SlimeBoard
